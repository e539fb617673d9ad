import CodeAtlas.Proofs.Agreement.Basic
import CodeAtlas.Proofs.Run.Writing

/-!
# Writing the records of a graph

Analyses and syncs write the records of nodes in the same way: classes, their methods, their
links. This file says what the store answers about each class afterwards, and proves that graph
and store agree then, if the nodes that are not written have been stored before.
-/

namespace CodeAtlas

open RecordStore

/-! ## Rows of one class -/

theorem methods_rowsFrom (classId : String) (n : Nat) (ms : List Method) :
    (rowsFrom classId n ms).map MethodRecord.method = ms := by
  induction ms generalizing n with
  | nil => rfl
  | cons m rest ih => rw [rowsFrom, List.map_cons, ih, MethodRecord.method_ofMethod]

theorem ids_rowsFrom (classId : String) (n : Nat) (ms : List Method) :
    (rowsFrom classId n ms).map (·.id) = StoreAccess.idsFrom n ms.length := by
  induction ms generalizing n with
  | nil => rfl
  | cons m rest ih =>
    rw [rowsFrom, List.map_cons, ih, List.length_cons, idsFrom_succ]
    rfl

/-- Rows that are staged for several classes hold those of no other class. -/
theorem filter_allRowsFrom_of_not_mem (g : Graph) (n : Nat) {rs : List ClassRecord} {id : String}
    (h : id ∉ rs.map (·.id)) : (allRowsFrom g n rs).filter (fun m => m.classId = id) = [] := by
  rw [List.filter_eq_nil_iff]
  intro m hm heq
  obtain ⟨r, hr, hid⟩ := classId_of_mem_allRowsFrom hm
  rw [decide_eq_true_eq] at heq
  exact h (heq ▸ hid ▸ List.mem_map_of_mem hr)

/-- The rows that are staged for one of several classes are those of its node's methods. -/
theorem filter_allRowsFrom_of_mem (g : Graph) (n : Nat) {rs : List ClassRecord}
    (hnodup : (rs.map (·.id)).Nodup) {r : ClassRecord} (hr : r ∈ rs) :
    ∃ k, (allRowsFrom g n rs).filter (fun m => m.classId = r.id) =
      rowsFrom r.id k (g.methodsOf r.identifier) := by
  have hown (c : String) (k : Nat) (ms : List Method) :
      (rowsFrom c k ms).filter (fun m => m.classId = c) = rowsFrom c k ms := by
    rw [List.filter_eq_self]
    exact fun m hm => decide_eq_true (classId_of_mem_rowsFrom hm)
  induction rs generalizing n with
  | nil => cases hr
  | cons a rest ih =>
    obtain ⟨ha, hrest⟩ := List.nodup_cons.1 hnodup
    rw [allRowsFrom, List.filter_append]
    rcases List.mem_cons.1 hr with rfl | hr
    · exact ⟨n, by rw [hown, filter_allRowsFrom_of_not_mem g _ ha, List.append_nil]⟩
    · have hother : (rowsFrom a.id n (g.methodsOf a.identifier)).filter
          (fun m => m.classId = r.id) = [] := by
        rw [List.filter_eq_nil_iff]
        intro m hm heq
        rw [decide_eq_true_eq, classId_of_mem_rowsFrom hm] at heq
        exact ha (List.mem_map.2 ⟨r, hr, heq.symm⟩)
      obtain ⟨k, hk⟩ := ih _ hrest hr
      exact ⟨k, by rw [hother, List.nil_append, hk]⟩

/-! ## The store afterwards -/

/-- The store after the records of staged nodes were written. -/
def RecordStore.withStaged (s : RecordStore) (g : Graph) (rs : List ClassRecord)
    (methods : List MethodRecord) : RecordStore :=
  (methods.foldl putMethod (s.saveClasses rs)).saveLinks (FreshAnalysis.allLinks g rs)

theorem FreshAnalysis.writeStaged_eq_ok {σ : Type} {w w' : Workspace σ} {g : Graph}
    {rs : List ClassRecord} {methods : List MethodRecord} {u : Unit}
    (h : (writeStaged g rs methods : Run σ Unit).run w = (.ok u, w')) :
    w'.records.store = w.records.store.withStaged g rs methods := by
  unfold writeStaged at h
  obtain ⟨_, w₁, hclasses, h⟩ := Fallible.bind_eq_ok.1 h
  obtain ⟨_, w₂, hmethods, h⟩ := Fallible.bind_eq_ok.1 h
  have hsaved := (Except.ok.inj (Run.write_eq_ok hclasses)).symm
  have hrows := (saveMethods_eq_ok (Run.write_eq_ok hmethods)).1
  have hlinks := (Except.ok.inj (Run.write_eq_ok h)).symm
  rw [hlinks, hrows, hsaved]
  rfl

namespace RecordStore

variable {s : RecordStore} {g : Graph} {rs : List ClassRecord} {id : String}

theorem getClass?_withStaged (s : RecordStore) (g : Graph) (rs : List ClassRecord)
    (methods : List MethodRecord) (id : String) :
    (s.withStaged g rs methods).getClass? id = (s.saveClasses rs).getClass? id := by
  unfold withStaged getClass?
  rw [classes_saveLinks, classes_putMethods]

theorem rowsOf_withStaged (s : RecordStore) (g : Graph) (rs : List ClassRecord)
    (methods : List MethodRecord) (id : String) :
    (s.withStaged g rs methods).rowsOf id =
      (methods.filter fun m => m.classId = id).foldl (fun d m => d.insert m.id m)
        (s.rowsOf id) := by
  rw [← rowsOf_saveClasses s rs id, ← rowsOf_putMethods]
  unfold withStaged rowsOf
  rw [methods_saveLinks]

theorem linksFor_withStaged (s : RecordStore) (g : Graph) (rs : List ClassRecord)
    (methods : List MethodRecord) (id : String) :
    (s.withStaged g rs methods).linksFor id =
      ((FreshAnalysis.allLinks g rs).filter fun l => l.classId = id).foldl appendNew
        (s.linksFor id) := by
  rw [← linksFor_saveClasses s rs id]
  unfold withStaged
  rw [linksFor_saveLinks]
  congr 1
  unfold linksFor
  rw [links_putMethods]

end RecordStore

/-! ## Agreement -/

namespace Graph

/-- A graph some of whose nodes are staged to be written under the ids to which they are tied.
Nothing is stored about their methods and links, and all other nodes are stored. -/
structure StagedOn (g : Graph) (s : RecordStore) (p : String) (rs : List ClassRecord) :
    Prop where
  wellFormed : g.WellFormed
  shared : ∀ id, Method.SharedTexts (g.methodsOf id)
  ids_nodup : (rs.map (·.id)).Nodup
  project : ∀ r ∈ rs, r.project = p
  tied : ∀ r ∈ rs, g.classId? r.identifier = some r.id
  kind : ∀ r ∈ rs, r.kind = g.kind r.identifier
  description : ∀ r ∈ rs, r.description = g.description? r.identifier
  rows_cleared : ∀ r ∈ rs, s.rowsOf r.id = .empty
  links_cleared : ∀ r ∈ rs, s.linksFor r.id = []
  nodes : ∀ id, g.contains id = true → (∃ r ∈ rs, r.identifier = id) ∨
    ∃ r ∈ s.findByProject p, r.id ∉ rs.map (·.id) ∧ r.identifier = id ∧ g.NodeStored s r
  others : ∀ r ∈ s.findByProject p, r.id ∉ rs.map (·.id) →
    g.contains r.identifier = true ∧ g.classId? r.identifier = some r.id

variable {g : Graph} {s : RecordStore} {p id : String} {rs : List ClassRecord}

/-- Nodes that are tied to one record are one node. -/
theorem StagedOn.classId_injective (h : g.StagedOn s p rs) (hs : s.Consistent) {i j c : String}
    (hi : g.classId? i = some c) (hj : g.classId? j = some c) : i = j := by
  have hnode {k : String} (hk : g.classId? k = some c) : g.contains k = true :=
    h.wellFormed.labels.classIds.contained k (Dict.contains_of_get?_eq_some hk)
  have hstaged {r : ClassRecord} (hr : r ∈ rs) {k : String} (hk : g.classId? k = some c)
      (heq : r.identifier = k) : r.id = c := by
    have htied := h.tied r hr
    rw [heq, hk] at htied
    exact (Option.some.inj htied).symm
  have hstored {r : ClassRecord} (hr : g.NodeStored s r) {k : String}
      (hk : g.classId? k = some c) (heq : r.identifier = k) : r.id = c := by
    have htied := hr.tied
    rw [heq, hk] at htied
    exact (Option.some.inj htied).symm
  rcases h.nodes i (hnode hi) with ⟨r, hr, hri⟩ | ⟨r, hr, hout, hri, hnodeStored⟩ <;>
    rcases h.nodes j (hnode hj) with ⟨r', hr', hrj⟩ | ⟨r', hr', hout', hrj, hnodeStored'⟩
  · have heq : r.id = r'.id := (hstaged hr hi hri).trans (hstaged hr' hj hrj).symm
    rw [← hri, ← hrj, List.inj_on_of_nodup_map h.ids_nodup hr hr' heq]
  · rw [hstored hnodeStored' hj hrj, ← hstaged hr hi hri] at hout'
    exact absurd (List.mem_map_of_mem hr) hout'
  · rw [hstored hnodeStored hi hri, ← hstaged hr' hj hrj] at hout
    exact absurd (List.mem_map_of_mem hr') hout
  · have hget := ((mem_findByProject hs).1 hr).1
    have hget' := ((mem_findByProject hs).1 hr').1
    rw [hstored hnodeStored hi hri] at hget
    rw [hstored hnodeStored' hj hrj, hget] at hget'
    rw [← hri, ← hrj, Option.some.inj hget']

/-- The records of a node's links are different ones: links of one method differ in position
or target, and different targets are tied to different records. -/
theorem nodup_linkRecords (hg : g.WellFormed)
    (hinj : ∀ i j c, g.classId? i = some c → g.classId? j = some c → i = j) (id : String) :
    (g.linkRecords id).Nodup := by
  cases howner : g.classId? id with
  | none =>
    unfold linkRecords
    rw [howner]
    exact List.nodup_nil
  | some owner =>
    have hnode := hg.links.linksOf id
    have hget (e : String × List ParameterLink) (he : e ∈ (g.linksOf id).toList) :
        (g.linksOf id).get? e.1 = some e.2 :=
      (Dict.mem_entries_iff hnode.nodup e.1 e.2).1 he
    rw [linkRecords_of_tied howner, List.nodup_flatMap]
    constructor
    · intro e he
      have hnamed := hnode.named e.1 e.2 (hget e he)
      refine List.pairwise_filterMap.2 ?_
      refine (hnode.links_nodup e.1 e.2 (hget e he)).imp_of_mem fun {x y} hx hy hne => ?_
      rintro _ hx' _ hy' rfl
      obtain ⟨c, hc, rfl⟩ := Option.map_eq_some_iff.1 hx'
      obtain ⟨d, hd, heq⟩ := Option.map_eq_some_iff.1 hy'
      injection heq with _ _ hposition htarget
      refine hne ?_
      cases x
      cases y
      simp only [ParameterLink.mk.injEq]
      exact ⟨(hnamed _ hx).trans (hnamed _ hy).symm, hposition.symm,
        hinj _ _ c hc (htarget ▸ hd)⟩
    · have hkeys : (g.linksOf id).toList.Pairwise fun e f => e.1 ≠ f.1 :=
        List.pairwise_map.1 hnode.nodup
      refine hkeys.imp fun {e f} hne => ?_
      intro l hl hl'
      obtain ⟨x, -, hx⟩ := List.mem_filterMap.1 hl
      obtain ⟨y, -, hy⟩ := List.mem_filterMap.1 hl'
      obtain ⟨c, -, rfl⟩ := Option.map_eq_some_iff.1 hx
      obtain ⟨d, -, heq⟩ := Option.map_eq_some_iff.1 hy
      injection heq with _ hname
      exact hne hname.symm

section Written

variable (h : g.StagedOn s p rs) (n : Nat)
include h

/-- A staged record is stored with all that the graph says about its node. -/
theorem StagedOn.nodeStored_of_mem (hs : s.Consistent) {r : ClassRecord} (hr : r ∈ rs) :
    g.NodeStored (s.withStaged g rs (allRowsFrom g n rs)) r where
  tied := h.tied r hr
  kind := h.kind r hr
  description := h.description r hr
  methods := by
    obtain ⟨k, hk⟩ := filter_allRowsFrom_of_mem g n h.ids_nodup hr
    have hnodup : ((rowsFrom r.id k (g.methodsOf r.identifier)).map (·.id)).Nodup := by
      rw [ids_rowsFrom]
      exact nodup_idsFrom _ _
    rw [methodsFor_eq_values, rowsOf_withStaged, hk, h.rows_cleared r hr,
      Dict.values_foldl_insert_of_new _ _ hnodup fun _ _ hmem => by cases hmem]
    exact methods_rowsFrom _ _ _
  links := by
    have hkeyed : (FreshAnalysis.allLinks g rs).filter (fun l => l.classId = r.id) =
        g.linkRecords r.identifier :=
      filter_flatMap_of_keyed h.ids_nodup
        (fun x hx l hl => classId_of_mem_linkRecords (h.tied x hx) hl) hr
    have hlinks := nodup_linkRecords h.wellFormed (fun _ _ _ => h.classId_injective hs)
      r.identifier
    rw [linksFor_withStaged, hkeyed, h.links_cleared r hr, foldl_appendNew_of_nodup (by simpa),
      List.nil_append]

/-- What is stored about other nodes stays as it is. -/
theorem StagedOn.nodeStored_of_not_mem {r : ClassRecord} (hout : r.id ∉ rs.map (·.id))
    (hr : g.NodeStored s r) : g.NodeStored (s.withStaged g rs (allRowsFrom g n rs)) r where
  tied := hr.tied
  kind := hr.kind
  description := hr.description
  methods := by
    rw [methodsFor_eq_values, rowsOf_withStaged, filter_allRowsFrom_of_not_mem g n hout]
    exact hr.methods
  links := by
    have hnone : (FreshAnalysis.allLinks g rs).filter (fun l => l.classId = r.id) = [] := by
      rw [List.filter_eq_nil_iff]
      intro l hl heq
      obtain ⟨x, hx, hl⟩ := List.mem_flatMap.1 hl
      rw [decide_eq_true_eq, classId_of_mem_linkRecords (h.tied x hx) hl] at heq
      exact hout (heq ▸ List.mem_map_of_mem hx)
    rw [linksFor_withStaged, hnone]
    exact hr.links

/-- Once the staged records are written, graph and store agree. -/
theorem StagedOn.agrees (hs : s.Consistent)
    (ht : (s.withStaged g rs (allRowsFrom g n rs)).Consistent) :
    g.Agrees (s.withStaged g rs (allRowsFrom g n rs)) p where
  wellFormed := h.wellFormed
  shared := h.shared
  stored id hid := by
    rcases h.nodes id hid with ⟨r, hr, heq⟩ | ⟨r, hr, hout, heq, hstored⟩
    · refine ⟨r, (mem_findByProject ht).2 ⟨?_, h.project r hr⟩, heq, h.nodeStored_of_mem n hs hr⟩
      rw [getClass?_withStaged]
      exact getClass?_saveClasses_of_mem h.ids_nodup hr
    · obtain ⟨hget, hproject⟩ := (mem_findByProject hs).1 hr
      refine ⟨r, (mem_findByProject ht).2 ⟨?_, hproject⟩, heq,
        h.nodeStored_of_not_mem n hout hstored⟩
      rwa [getClass?_withStaged, getClass?_saveClasses_of_not_mem hout]
  covered r hr := by
    obtain ⟨hget, hproject⟩ := (mem_findByProject ht).1 hr
    rw [getClass?_withStaged] at hget
    by_cases hmem : r.id ∈ rs.map (·.id)
    · obtain ⟨x, hx, -, hsaved⟩ := exists_getClass?_saveClasses (s := s) hmem
      rw [hsaved] at hget
      obtain rfl := Option.some.inj hget
      have htied := h.tied x hx
      exact ⟨h.wellFormed.labels.classIds.contained _ (Dict.contains_of_get?_eq_some htied), htied⟩
    · rw [getClass?_saveClasses_of_not_mem hmem] at hget
      exact h.others r ((mem_findByProject hs).2 ⟨hget, hproject⟩) hmem

end Written

end Graph

end CodeAtlas
