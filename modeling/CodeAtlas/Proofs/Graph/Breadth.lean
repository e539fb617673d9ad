import Mathlib.Data.Nat.Find
import CodeAtlas.Graph.Basic
import CodeAtlas.Proofs.Graph.WellFormed

/-!
# Breadth first

Nodes are analyzed in the order in which a traversal meets them that begins at the entry points.
What has been met at any time are the entry points and the dependencies of the nodes visited so
far, each where it first occurs. When no node is pending this describes the order by itself: a
node stands where the earliest of its dependents put it. Distances and the nodes that are missed
follow from that.
-/

namespace CodeAtlas

/-! ## First occurrences -/

section FirstOccurrences

variable {α β : Type} [DecidableEq α]

/-- Different elements that are added one after the other are added unless they are there. -/
theorem foldl_appendNew_eq_filter {xs ys : List α} (h : ys.Nodup) :
    ys.foldl appendNew xs = xs ++ ys.filter fun y => !xs.contains y := by
  induction ys generalizing xs with
  | nil => simp
  | cons y rest ih =>
    obtain ⟨hy, hrest⟩ := List.nodup_cons.1 h
    rw [List.foldl_cons, ih hrest, appendNew]
    by_cases hmem : y ∈ xs
    · rw [if_pos hmem, List.filter_cons_of_neg (by simpa using hmem)]
    · have hlater : rest.filter (fun z => !(xs ++ [y]).contains z) =
          rest.filter fun z => !xs.contains z := by
        refine List.filter_congr fun z hz => ?_
        have hne : z ≠ y := fun heq => hy (heq ▸ hz)
        simp [hne]
      rw [if_neg hmem, List.filter_cons_of_pos (by simpa using hmem), hlater, List.append_assoc]
      rfl

theorem firstOccurrences_of_nodup {xs : List α} (h : xs.Nodup) : firstOccurrences xs = xs :=
  foldl_appendNew_of_nodup (show ([] ++ xs).Nodup from h)

theorem firstOccurrences_append {xs ys : List α} (h : ys.Nodup) :
    firstOccurrences (xs ++ ys) =
      firstOccurrences xs ++ ys.filter fun y => !(firstOccurrences xs).contains y := by
  unfold firstOccurrences
  rw [List.foldl_append, foldl_appendNew_eq_filter h]

/-- Elements stay in the order of their first occurrences. -/
theorem pairwise_firstOccurrences (xs : List α) :
    (firstOccurrences xs).Pairwise fun u v => xs.idxOf u < xs.idxOf v := by
  -- one more element at the end does not move the elements before it
  induction xs using List.reverseRecOn with
  | nil => exact List.Pairwise.nil
  | append_singleton xs x ih =>
    have hmem {u : α} (hu : u ∈ firstOccurrences xs) : u ∈ xs := mem_firstOccurrences.1 hu
    have hearlier : (firstOccurrences xs).Pairwise fun u v =>
        (xs ++ [x]).idxOf u < (xs ++ [x]).idxOf v := by
      refine ih.imp_of_mem fun hu hv hlt => ?_
      rwa [List.idxOf_append_of_mem (hmem hu), List.idxOf_append_of_mem (hmem hv)]
    have hstep : firstOccurrences (xs ++ [x]) = appendNew (firstOccurrences xs) x :=
      List.foldl_append ..
    rw [hstep, appendNew]
    split
    · exact hearlier
    · next hx =>
      have hnew : x ∉ xs := fun hin => hx (mem_firstOccurrences.2 hin)
      refine List.pairwise_append.2 ⟨hearlier, List.pairwise_singleton _ _, fun u hu v hv => ?_⟩
      obtain rfl := List.mem_singleton.1 hv
      rw [List.idxOf_append_of_mem (hmem hu), List.idxOf_append_of_notMem hnew]
      have hbefore := List.idxOf_lt_length_of_mem (hmem hu)
      omega

/-- Of two elements of joined lists the one that occurs first is in an earlier list, or both are
first in the same list, where it occurs first. -/
theorem exists_find?_of_idxOf_lt {f : β → List α} [DecidableEq β] {ps : List β} (hps : ps.Nodup)
    {u v : α} (hv : v ∈ ps.flatMap f) (hlt : (ps.flatMap f).idxOf u < (ps.flatMap f).idxOf v) :
    ∃ p q, (ps.find? fun p => (f p).contains u) = some p ∧
      (ps.find? fun p => (f p).contains v) = some q ∧
      (ps.idxOf p < ps.idxOf q ∨ p = q ∧ (f p).idxOf u < (f p).idxOf v) := by
  induction ps with
  | nil => cases hv
  | cons p rest ih =>
    obtain ⟨hp, hrest⟩ := List.nodup_cons.1 hps
    have hshift {q : β} (hq : q ∈ rest) : (p :: rest).idxOf q = rest.idxOf q + 1 :=
      List.idxOf_cons_ne _ fun heq => hp (heq ▸ hq)
    rw [List.flatMap_cons] at hv hlt
    by_cases hvp : v ∈ f p
    · have hup : u ∈ f p := by
        by_contra hup
        rw [List.idxOf_append_of_notMem hup, List.idxOf_append_of_mem hvp] at hlt
        have hbound := List.idxOf_lt_length_of_mem hvp
        omega
      rw [List.idxOf_append_of_mem hup, List.idxOf_append_of_mem hvp] at hlt
      exact ⟨p, p, List.find?_cons_of_pos (by simpa using hup),
        List.find?_cons_of_pos (by simpa using hvp), Or.inr ⟨rfl, hlt⟩⟩
    · have hvrest : v ∈ rest.flatMap f := (List.mem_append.1 hv).resolve_left hvp
      have hvfind : ((p :: rest).find? fun p => (f p).contains v) =
          rest.find? fun p => (f p).contains v := List.find?_cons_of_neg (by simpa using hvp)
      by_cases hup : u ∈ f p
      · obtain ⟨q, hq, hvq⟩ := List.mem_flatMap.1 hvrest
        obtain ⟨q, hfound⟩ := Option.isSome_iff_exists.1
          (List.find?_isSome.2 ⟨q, hq, by simpa using hvq⟩ :
            (rest.find? fun p => (f p).contains v).isSome)
        refine ⟨p, q, List.find?_cons_of_pos (by simpa using hup), hvfind.trans hfound, Or.inl ?_⟩
        rw [hshift (List.mem_of_find?_eq_some hfound), List.idxOf_cons_self]
        omega
      · rw [List.idxOf_append_of_notMem hup, List.idxOf_append_of_notMem hvp] at hlt
        have hufind : ((p :: rest).find? fun p => (f p).contains u) =
            rest.find? fun p => (f p).contains u := List.find?_cons_of_neg (by simpa using hup)
        obtain ⟨q, r, hq, hr, horder⟩ := ih hrest hvrest (by omega)
        refine ⟨q, r, hufind.trans hq, hvfind.trans hr, ?_⟩
        rw [hshift (List.mem_of_find?_eq_some hq), hshift (List.mem_of_find?_eq_some hr)]
        exact horder.imp_left Nat.succ_lt_succ

/-- What is found first stands before everything else that could be found. -/
theorem idxOf_le_of_find? {xs : List α} {test : α → Bool} {p a : α} (hp : xs.find? test = some p)
    (ha : a ∈ xs) (htest : test a = true) : xs.idxOf p ≤ xs.idxOf a := by
  obtain ⟨hpt, before, after, rfl, hbefore⟩ := List.find?_eq_some_iff_append.1 hp
  have hout {x : α} (hx : test x = true) : x ∉ before := fun hmem => by
    simpa [hx] using hbefore x hmem
  rw [List.idxOf_append_of_notMem (hout hpt), List.idxOf_append_of_notMem (hout htest),
    List.idxOf_cons_self]
  omega

end FirstOccurrences

namespace Graph

/-! ## What entry points reach -/

/-- The nodes to which so many dependencies lead from an entry point, one after the other. -/
inductive ReachedIn (g : Graph) : Nat → String → Prop
  | entry {id : String} (h : id ∈ g.entryPoints) : ReachedIn g 0 id
  | step {n : Nat} {a b : String} (h : ReachedIn g n a) (hb : b ∈ g.dependencies a) :
    ReachedIn g (n + 1) b

/-- Whether dependencies lead from an entry point to the node. -/
def Reached (g : Graph) (id : String) : Prop := ∃ n, g.ReachedIn n id

/-- The least number of dependencies that lead from an entry point to the node. -/
def Distance (g : Graph) (id : String) (n : Nat) : Prop :=
  g.ReachedIn n id ∧ ∀ m, g.ReachedIn m id → n ≤ m

theorem Reached.exists_distance {g : Graph} {id : String} (h : g.Reached id) :
    ∃ n, g.Distance id n := by
  classical
  exact ⟨Nat.find h, Nat.find_spec h, fun m hm => Nat.find_min' h hm⟩

/-! ## The traversal -/

/-- The traversal without a bound: it visits the first pending node, to which the dependencies
that have not been met are added at the end, and it ends when no node is pending. -/
inductive Visits (g : Graph) : List String → List String → List String → Prop
  | done (seen : List String) : Visits g seen [] seen
  | visit {seen pending order : List String} {current : String}
    (h : Visits g (seen ++ (g.dependencies current).filter fun t => !seen.contains t)
      (pending ++ (g.dependencies current).filter fun t => !seen.contains t) order) :
    Visits g seen (current :: pending) order

/-- What has been met, when some nodes have been visited and the others are pending. -/
structure Met (g : Graph) (visited pending : List String) : Prop where
  seen : visited ++ pending =
    firstOccurrences (g.entryPoints ++ visited.flatMap g.dependencies)
  reached : ∀ id ∈ visited ++ pending, g.Reached id

section Traversal

variable {g : Graph} {visited pending : List String}

theorem Met.of_start (hg : g.WellFormed) : g.Met [] g.entryPoints where
  seen := by
    simpa using (firstOccurrences_of_nodup hg.labels.entryPoints_nodup).symm
  reached _ hid := ⟨0, .entry hid⟩

/-- Visiting a node keeps the rule by which nodes are met. -/
theorem Met.visit (hg : g.WellFormed) {current : String} (h : g.Met visited (current :: pending)) :
    g.Met (visited ++ [current]) (pending ++
      (g.dependencies current).filter fun t => !(visited ++ current :: pending).contains t) where
  seen := by
    rw [List.flatMap_append, List.flatMap_singleton, ← List.append_assoc g.entryPoints,
      firstOccurrences_append (hg.edges.dependencies_nodup current), ← h.seen]
    simp
  reached id hid := by
    have hcurrent : g.Reached current := h.reached current (by simp)
    obtain hold | hnew : id ∈ visited ++ current :: pending ∨ id ∈ g.dependencies current := by
      simp only [List.mem_append, List.mem_filter, List.mem_cons] at hid ⊢
      tauto
    · exact h.reached id hold
    · obtain ⟨n, hn⟩ := hcurrent
      exact ⟨n + 1, hn.step hnew⟩

theorem Met.nodup (h : g.Met visited pending) : (visited ++ pending).Nodup := by
  rw [h.seen]
  exact nodup_foldl_appendNew List.nodup_nil _

theorem Met.mem_iff (h : g.Met visited pending) (id : String) :
    id ∈ visited ++ pending ↔ id ∈ g.entryPoints ∨ ∃ a ∈ visited, id ∈ g.dependencies a := by
  rw [h.seen, mem_firstOccurrences, List.mem_append, List.mem_flatMap]

/-- What is met is an entry point or the end of an edge. -/
theorem Met.length_le (hg : g.WellFormed) (h : g.Met visited pending) :
    (visited ++ pending).length ≤ g.entryPoints.length + g.edgeCount := by
  have hsub : visited ++ pending ⊆ g.entryPoints ++ g.edgeList.map (·.2) := by
    intro id hid
    rcases (h.mem_iff id).1 hid with hentry | ⟨a, -, hdep⟩
    · exact List.mem_append_left _ hentry
    · have hnode : a ∈ g.identifiers :=
        (Dict.contains_iff_mem_keys _ a).1 (hg.edges.ends a id hdep).1
      have hedge : (a, id) ∈ g.edgeList :=
        List.mem_flatMap.2 ⟨a, hnode, List.mem_map_of_mem hdep⟩
      exact List.mem_append_right _ (List.mem_map.2 ⟨(a, id), hedge, rfl⟩)
  have hlength := (h.nodup.subperm hsub).length_le
  have hedges := edgeCount_eq_length_edgeList hg.nodes_nodup hg.edges
  rw [List.length_append, List.length_append, List.length_map] at hlength
  rw [List.length_append]
  omega

/-- A traversal for which the bound suffices ends by itself. -/
theorem Met.visitPending (hg : g.WellFormed) (h : g.Met visited pending) {bound : Nat}
    (hbound : g.entryPoints.length + g.edgeCount < bound + visited.length) :
    g.Visits (visited ++ pending) pending (g.visitPending bound (visited ++ pending) pending) ∧
      g.Met (g.visitPending bound (visited ++ pending) pending) [] := by
  -- each visit takes one from the bound and adds one to the visited nodes
  induction bound generalizing visited pending with
  | zero =>
    have hle := h.length_le hg
    rw [List.length_append] at hle
    omega
  | succ bound ih =>
    cases pending with
    | nil =>
      rw [List.append_nil]
      exact ⟨.done visited, h⟩
    | cons current pending =>
      have hlength :
          g.entryPoints.length + g.edgeCount < bound + (visited ++ [current]).length := by
        rw [List.length_append, List.length_singleton]
        omega
      have hseen (fresh : List String) : (visited ++ [current]) ++ (pending ++ fresh) =
          (visited ++ current :: pending) ++ fresh := by simp
      obtain ⟨hvisits, hmet⟩ := ih (h.visit hg) hlength
      rw [hseen] at hvisits hmet
      rw [Graph.visitPending]
      exact ⟨.visit hvisits, hmet⟩

end Traversal

/-! ## The order -/

/-- The earliest listed of the nodes that depend on a node. -/
def finder? (g : Graph) (order : List String) (id : String) : Option String :=
  order.find? fun p => (g.dependencies p).contains id

/-- Whether a node is found before another one: by a node that is listed earlier, or by the same
node, which names it earlier among its dependencies. -/
def FoundBefore (g : Graph) (order : List String) (u v : String) : Prop :=
  ∃ p q, g.finder? order u = some p ∧ g.finder? order v = some q ∧
    (order.idxOf p < order.idxOf q ∨
      p = q ∧ (g.dependencies p).idxOf u < (g.dependencies p).idxOf v)

/-- The parts of an order of analysis: after the entry points the nodes that are `found` from
them, then the `rest`. -/
structure BreadthFirst (g : Graph) (found rest : List String) : Prop where
  order : g.analysisOrder = g.entryPoints ++ found ++ rest
  all : g.analysisOrder.Perm g.identifiers
  /-- The traversal ends with the entry points and what is found. -/
  ends : g.Visits g.entryPoints g.entryPoints (g.entryPoints ++ found)
  mem_found : ∀ id, id ∈ found ↔ g.Reached id ∧ id ∉ g.entryPoints
  nearer : found.Pairwise fun u v => ∃ m n, g.Distance u m ∧ g.Distance v n ∧ m ≤ n
  foundBefore : found.Pairwise (g.FoundBefore g.analysisOrder)
  mem_rest : ∀ id, id ∈ rest ↔ id ∈ g.identifiers ∧ ¬g.Reached id
  /-- The rest is in insertion order. -/
  rest_sublist : rest.Sublist g.identifiers

section Order

variable {g : Graph} {order found : List String}

/-- What entry points reach is met. -/
theorem Met.mem_of_reached (h : g.Met order []) {id : String} (hid : g.Reached id) :
    id ∈ order := by
  have hmem := h.mem_iff
  simp only [List.append_nil] at hmem
  obtain ⟨n, hn⟩ := hid
  induction hn with
  | entry hentry => exact (hmem _).2 (Or.inl hentry)
  | step _ hdep ih => exact (hmem _).2 (Or.inr ⟨_, ih, hdep⟩)

theorem Met.mem_iff_reached (h : g.Met order []) (id : String) : id ∈ order ↔ g.Reached id :=
  ⟨fun hid => h.reached id (by simpa using hid), h.mem_of_reached⟩

/-- The entry points are met first. -/
theorem Met.exists_found (hg : g.WellFormed) (h : g.Met order []) :
    ∃ found, order = g.entryPoints ++ found := by
  have hentries : g.entryPoints.foldl appendNew [] = g.entryPoints :=
    firstOccurrences_of_nodup hg.labels.entryPoints_nodup
  have hseen := h.seen
  rw [List.append_nil, firstOccurrences, List.foldl_append, hentries] at hseen
  generalize order.flatMap g.dependencies = ids at hseen
  rw [hseen]
  clear hentries hseen h
  induction ids using List.reverseRecOn with
  | nil => exact ⟨[], by simp⟩
  | append_singleton ids id ih =>
    obtain ⟨found, hfound⟩ := ih
    rw [List.foldl_append, List.foldl_cons, List.foldl_nil, hfound, appendNew]
    split
    · exact ⟨found, rfl⟩
    · exact ⟨found ++ [id], List.append_assoc ..⟩

variable (h : g.Met (g.entryPoints ++ found) [])
include h

/-- The found nodes stand in the order in which they are found. -/
theorem Met.foundBefore : found.Pairwise (g.FoundBefore (g.entryPoints ++ found)) := by
  have hseen := h.seen
  have hnodup := h.nodup
  rw [List.append_nil] at hseen hnodup
  have hordered := pairwise_firstOccurrences
    (g.entryPoints ++ (g.entryPoints ++ found).flatMap g.dependencies)
  rw [← hseen, List.pairwise_append] at hordered
  refine hordered.2.1.imp_of_mem fun {u v} hu hv hlt => ?_
  have hfound {id : String} (hid : id ∈ found) : id ∉ g.entryPoints := fun hentry =>
    (List.nodup_append.1 hnodup).2.2 id hentry id hid rfl
  rw [List.idxOf_append_of_notMem (hfound hu), List.idxOf_append_of_notMem (hfound hv)] at hlt
  have hput : v ∈ (g.entryPoints ++ found).flatMap g.dependencies := by
    have hmem := (h.mem_iff v).1 (by simp [hv])
    exact List.mem_flatMap.2 (hmem.resolve_left (hfound hv))
  exact exists_find?_of_idxOf_lt hnodup hput (by omega)

/-- Of the found nodes the one that is found first stands first. -/
theorem Met.foundBefore_of_idxOf_lt {u v : String} (hu : u ∈ found) (hv : v ∈ found)
    (hlt : found.idxOf u < found.idxOf v) : g.FoundBefore (g.entryPoints ++ found) u v := by
  have hpair := List.pairwise_iff_getElem.1 h.foundBefore (found.idxOf u) (found.idxOf v)
    (List.idxOf_lt_length_of_mem hu) (List.idxOf_lt_length_of_mem hv) hlt
  rwa [List.getElem_idxOf, List.getElem_idxOf] at hpair

/-- A node that stands before another one is not farther from the entry points. -/
theorem Met.exists_reachedIn_le {n : Nat} {v : String} (hv : g.ReachedIn n v) {u : String}
    (hu : u ∈ g.entryPoints ++ found)
    (hle : (g.entryPoints ++ found).idxOf u ≤ (g.entryPoints ++ found).idxOf v) :
    ∃ m, m ≤ n ∧ g.ReachedIn m u := by
  have hentry {u v : String} (hv : v ∈ g.entryPoints)
      (hle : (g.entryPoints ++ found).idxOf u ≤ (g.entryPoints ++ found).idxOf v) :
      u ∈ g.entryPoints := by
    by_contra hu
    rw [List.idxOf_append_of_notMem hu, List.idxOf_append_of_mem hv] at hle
    have hbound := List.idxOf_lt_length_of_mem hv
    omega
  -- the finder of the first node does not stand behind the last node on a way to the second one
  induction hv generalizing u with
  | entry hv => exact ⟨0, Nat.le_refl 0, .entry (hentry hv hle)⟩
  | @step n a v ha hdep ih =>
    by_cases hue : u ∈ g.entryPoints
    · exact ⟨0, Nat.zero_le _, .entry hue⟩
    have hve : v ∉ g.entryPoints := fun hve => hue (hentry hve hle)
    have haorder : a ∈ g.entryPoints ++ found := h.mem_of_reached ⟨n, ha⟩
    have huf : u ∈ found := (List.mem_append.1 hu).resolve_left hue
    have hvf : v ∈ found :=
      (List.mem_append.1 (h.mem_of_reached ⟨n + 1, ha.step hdep⟩)).resolve_left hve
    rw [List.idxOf_append_of_notMem hue, List.idxOf_append_of_notMem hve] at hle
    obtain ⟨p, q, hp, hq, horder⟩ : ∃ p q,
        g.finder? (g.entryPoints ++ found) u = some p ∧
        g.finder? (g.entryPoints ++ found) v = some q ∧
        (g.entryPoints ++ found).idxOf p ≤ (g.entryPoints ++ found).idxOf q := by
      rcases Nat.lt_or_eq_of_le (Nat.le_of_add_le_add_left hle) with hlt | heq
      · obtain ⟨p, q, hp, hq, hlt | ⟨rfl, -⟩⟩ := h.foundBefore_of_idxOf_lt huf hvf hlt
        · exact ⟨p, q, hp, hq, Nat.le_of_lt hlt⟩
        · exact ⟨p, p, hp, hq, Nat.le_refl _⟩
      · obtain rfl : u = v := (List.idxOf_inj huf).1 heq
        obtain ⟨p, hp⟩ := Option.isSome_iff_exists.1
          (List.find?_isSome.2 ⟨a, haorder, by simpa using hdep⟩ :
            (g.finder? (g.entryPoints ++ found) u).isSome)
        exact ⟨p, p, hp, hp, Nat.le_refl _⟩
    have hfirst := idxOf_le_of_find? hq haorder (by simpa using hdep)
    obtain ⟨m, hm, hreached⟩ := ih (List.mem_of_find?_eq_some hp) (horder.trans hfirst)
    have hpu : u ∈ g.dependencies p := by simpa using List.find?_some hp
    exact ⟨m + 1, Nat.succ_le_succ hm, hreached.step hpu⟩

theorem Met.nearer :
    found.Pairwise fun u v => ∃ m n, g.Distance u m ∧ g.Distance v n ∧ m ≤ n := by
  rw [List.pairwise_iff_getElem]
  intro i j hi hj hij
  have hreached {k : Nat} (hk : k < found.length) : g.Reached found[k] :=
    (h.mem_iff_reached _).1 (List.mem_append_right _ (List.getElem_mem hk))
  obtain ⟨m, hm⟩ := (hreached hi).exists_distance
  obtain ⟨n, hn⟩ := (hreached hj).exists_distance
  have hnodup := h.nodup
  rw [List.append_nil] at hnodup
  have hplace {k : Nat} (hk : k < found.length) :
      (g.entryPoints ++ found).idxOf found[k] = g.entryPoints.length + k := by
    have hout : found[k] ∉ g.entryPoints := fun hentry =>
      (List.nodup_append.1 hnodup).2.2 _ hentry _ (List.getElem_mem hk) rfl
    rw [List.idxOf_append_of_notMem hout, (List.nodup_append.1 hnodup).2.1.idxOf_getElem]
  obtain ⟨l, hl, hlm⟩ := h.exists_reachedIn_le hn.1
    (List.mem_append_right _ (List.getElem_mem hi)) (by rw [hplace hi, hplace hj]; omega)
  exact ⟨m, n, hm, hn, (hm.2 l hlm).trans hl⟩

end Order

/-- What is found before stays so when more nodes are listed. -/
theorem FoundBefore.append {g : Graph} {order : List String} {u v : String}
    (h : g.FoundBefore order u v) (rest : List String) : g.FoundBefore (order ++ rest) u v := by
  obtain ⟨p, q, hp, hq, horder⟩ := h
  refine ⟨p, q, ?_, ?_, ?_⟩
  · unfold finder? at hp ⊢
    rw [List.find?_append, hp, Option.some_or]
  · unfold finder? at hq ⊢
    rw [List.find?_append, hq, Option.some_or]
  · rwa [List.idxOf_append_of_mem (List.mem_of_find?_eq_some hp),
      List.idxOf_append_of_mem (List.mem_of_find?_eq_some hq)]

/-- A list in front of what else there is holds everything once. -/
theorem perm_append_filter_not_mem {xs ys : List String} (hxs : xs.Nodup) (hys : ys.Nodup)
    (hsub : ∀ y ∈ ys, y ∈ xs) : (ys ++ xs.filter fun x => !ys.contains x).Perm xs := by
  have hnodup : (ys ++ xs.filter fun x => !ys.contains x).Nodup := by
    refine List.nodup_append.2 ⟨hys, hxs.filter _, fun a ha b hb hab => ?_⟩
    obtain ⟨-, hb⟩ := List.mem_filter.1 hb
    simp [← hab, ha] at hb
  refine (List.perm_ext_iff_of_nodup hnodup hxs).2 fun x => ?_
  rw [List.mem_append, List.mem_filter]
  constructor
  · rintro (hx | ⟨hx, -⟩)
    · exact hsub x hx
    · exact hx
  · intro hx
    by_cases hmem : x ∈ ys
    · exact Or.inl hmem
    · exact Or.inr ⟨hx, by simpa using hmem⟩

/-- A well-formed graph is analyzed breadth first. -/
theorem WellFormed.breadthFirst {g : Graph} (hg : g.WellFormed) :
    ∃ found rest, g.BreadthFirst found rest := by
  have hbound : g.entryPoints.length + g.edgeCount <
      g.entryPoints.length + g.edgeCount + 1 + ([] : List String).length := Nat.lt_succ_self _
  obtain ⟨hends, hmet⟩ := (Met.of_start hg).visitPending hg hbound
  rw [List.nil_append] at hends hmet
  change g.Visits _ _ g.reachedOrder at hends
  change g.Met g.reachedOrder [] at hmet
  obtain ⟨found, hfound⟩ := hmet.exists_found hg
  have hall : g.analysisOrder =
      g.reachedOrder ++ g.identifiers.filter fun id => !g.reachedOrder.contains id := rfl
  generalize g.reachedOrder = order at hends hmet hfound hall
  subst hfound
  have hnode {id : String} (hid : id ∈ g.entryPoints ++ found) : id ∈ g.identifiers := by
    refine (Dict.contains_iff_mem_keys _ id).1 ?_
    rcases (hmet.mem_iff id).1 (by simpa using hid) with hentry | ⟨a, -, hdep⟩
    · exact hg.labels.entryPoints id hentry
    · exact (hg.edges.ends a id hdep).2
  have hnodup : (g.entryPoints ++ found).Nodup := by simpa using hmet.nodup
  refine ⟨found, g.identifiers.filter fun id => !(g.entryPoints ++ found).contains id, hall, ?_,
    hends, fun id => ?_, hmet.nearer, ?_, fun id => ?_, List.filter_sublist⟩
  · rw [hall]
    exact perm_append_filter_not_mem hg.nodes_nodup hnodup fun _ => hnode
  · rw [← hmet.mem_iff_reached, List.mem_append]
    have hapart := (List.nodup_append.1 hnodup).2.2
    constructor
    · exact fun hid => ⟨Or.inr hid, fun hentry => hapart id hentry id hid rfl⟩
    · exact fun hid => hid.1.resolve_left hid.2
  · rw [hall]
    exact hmet.foundBefore.imp fun huv => huv.append _
  · rw [← hmet.mem_iff_reached, List.mem_filter]
    simp

/-- However a graph has come about by its operations, the traversal ends, and the order of
analysis has every node once: the entry points as they were marked, then all other nodes that they
reach, the nearer ones first and in the order in which they are found, then all nodes that they do
not reach, in insertion order. -/
theorem breadthFirst_of_changes (changes : List Mutation) :
    ∃ found rest, (Mutation.applyAll changes .empty).BreadthFirst found rest :=
  (WellFormed.of_empty.applyAll changes).breadthFirst

end Graph

end CodeAtlas
