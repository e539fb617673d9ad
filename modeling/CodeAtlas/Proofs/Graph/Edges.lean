import CodeAtlas.Proofs.Graph.Answers
import Mathlib.Algebra.BigOperators.Group.Finset.Basic
import Mathlib.Algebra.BigOperators.Group.List.Basic

/-!
# Edges in both directions

A graph keeps every edge twice, with its start and with its end. This file proves that adding
an edge and removing a node keep the two in step, and that counting what is kept counts every
edge once.
-/

namespace CodeAtlas.Graph

variable {ι τ ν η π : Type} [DecidableEq ι] [SelfEqual ι]

/-- Two identifiers that a comparison does not find equal. -/
def Apart (a b : ι) : Prop := a = b → SelfEqual.selfEqual a = false

instance (a b : ι) : Decidable (Apart a b) :=
  inferInstanceAs (Decidable (a = b → SelfEqual.selfEqual a = false))

/-- A comparison tells texts apart that are different, and no others. -/
theorem apart_iff_ne (a b : String) : Apart a b ↔ a ≠ b :=
  ⟨fun h hab => Bool.noConfusion (h hab), fun h hab => absurd hab h⟩

/-- The edges of a graph: both directions agree, nothing is listed twice, no node depends on
itself unless it is not equal to itself, and both ends are nodes. -/
structure EdgesCoupled (g : Graph ι τ ν η π) : Prop where
  outgoing_nodup : g.outgoing.keys.Nodup
  ends : ∀ a b, b ∈ g.dependencies a → g.contains a = true ∧ g.contains b = true
  apart : ∀ a b, b ∈ g.dependencies a → Apart a b
  mirrored : ∀ a b, b ∈ g.dependencies a ↔ a ∈ g.dependents b
  dependencies_nodup : ∀ a, (g.dependencies a).Nodup
  dependents_nodup : ∀ a, (g.dependents a).Nodup

/-- Only nodes and the two lists of edges matter. -/
theorem EdgesCoupled.congr {g h : Graph ι τ ν η π} (hg : g.EdgesCoupled)
    (hnodes : h.nodes = g.nodes)
    (houtgoing : h.outgoing = g.outgoing) (hincoming : h.incoming = g.incoming) :
    h.EdgesCoupled := by
  obtain ⟨h1, h2, h3, h4, h5, h6⟩ := hg
  constructor <;> simpa only [dependencies, dependents, contains, hnodes, houtgoing, hincoming]

/-- An edge is entered in both lists if it leads from one node to another. -/
theorem addDependency_eq (g : Graph ι τ ν η π) (a b : ι) :
    g.addDependency a b =
      if Apart a b ∧ g.contains a = true ∧ g.contains b = true then
        { g with
          outgoing := g.outgoing.insert a (appendNew (g.dependencies a) b)
          incoming := g.incoming.insert b (appendNew (g.dependents b) a) }
      else g := by
  have hskip : ((decide (a = b) && SelfEqual.selfEqual a) || !g.contains a || !g.contains b) =
      !decide (Apart a b ∧ g.contains a = true ∧ g.contains b = true) := by
    by_cases hab : a = b <;> simp [Apart, hab]
  unfold addDependency
  rw [hskip]
  by_cases hnew : Apart a b ∧ g.contains a = true ∧ g.contains b = true
  · rw [if_pos hnew, if_neg (by simp [hnew])]
  · rw [if_neg hnew, if_pos (by rw [decide_eq_false hnew]; rfl)]

theorem dependencies_addDependency (g : Graph ι τ ν η π) (a b c : ι) :
    (g.addDependency a b).dependencies c =
      if c = a ∧ Apart a b ∧ g.contains a = true ∧ g.contains b = true then
        appendNew (g.dependencies a) b
      else g.dependencies c := by
  rw [addDependency_eq]
  by_cases hnew : Apart a b ∧ g.contains a = true ∧ g.contains b = true
  · rw [if_pos hnew]
    simp only [dependencies, Dict.getD_insert, and_iff_left hnew]
  · rw [if_neg hnew, if_neg fun h => hnew h.2]

theorem dependents_addDependency (g : Graph ι τ ν η π) (a b c : ι) :
    (g.addDependency a b).dependents c =
      if c = b ∧ Apart a b ∧ g.contains a = true ∧ g.contains b = true then
        appendNew (g.dependents b) a
      else g.dependents c := by
  rw [addDependency_eq]
  by_cases hnew : Apart a b ∧ g.contains a = true ∧ g.contains b = true
  · rw [if_pos hnew]
    simp only [dependents, Dict.getD_insert, and_iff_left hnew]
  · rw [if_neg hnew, if_neg fun h => hnew h.2]

theorem mem_dependencies_addDependency (g : Graph ι τ ν η π) (a b c d : ι) :
    d ∈ (g.addDependency a b).dependencies c ↔ d ∈ g.dependencies c ∨
      c = a ∧ d = b ∧ Apart a b ∧ g.contains a = true ∧ g.contains b = true := by
  rw [dependencies_addDependency]
  split
  · next h =>
    obtain ⟨rfl, hab, ha, hb⟩ := h
    simp [mem_appendNew, hab, ha, hb]
  · next h =>
    constructor
    · exact Or.inl
    · rintro (hd | ⟨hca, -, hrest⟩)
      · exact hd
      · exact absurd ⟨hca, hrest⟩ h

theorem mem_dependents_addDependency (g : Graph ι τ ν η π) (a b c d : ι) :
    c ∈ (g.addDependency a b).dependents d ↔ c ∈ g.dependents d ∨
      c = a ∧ d = b ∧ Apart a b ∧ g.contains a = true ∧ g.contains b = true := by
  rw [dependents_addDependency]
  split
  · next h =>
    obtain ⟨rfl, hab, ha, hb⟩ := h
    simp [mem_appendNew, hab, ha, hb]
  · next h =>
    constructor
    · exact Or.inl
    · rintro (hd | ⟨-, hdb, hrest⟩)
      · exact hd
      · exact absurd ⟨hdb, hrest⟩ h

/-- A new edge is entered in both directions, so they still agree. -/
theorem EdgesCoupled.addDependency {g : Graph ι τ ν η π} (hg : g.EdgesCoupled) (a b : ι) :
    (g.addDependency a b).EdgesCoupled where
  outgoing_nodup := by
    unfold Graph.addDependency
    split
    · exact hg.outgoing_nodup
    · exact Dict.nodup_keys_insert hg.outgoing_nodup _ _
  ends c d hd := by
    have hnodes := nodes_addDependency g a b
    rw [contains_congr hnodes, contains_congr hnodes]
    rcases (mem_dependencies_addDependency g a b c d).1 hd with hd | ⟨rfl, rfl, -, ha, hb⟩
    · exact hg.ends c d hd
    · exact ⟨ha, hb⟩
  apart c d hd := by
    rcases (mem_dependencies_addDependency g a b c d).1 hd with hd | ⟨rfl, rfl, hab, -⟩
    · exact hg.apart c d hd
    · exact hab
  mirrored c d := by
    rw [mem_dependencies_addDependency, mem_dependents_addDependency, hg.mirrored]
  dependencies_nodup c := by
    rw [dependencies_addDependency]
    split
    · exact nodup_appendNew (hg.dependencies_nodup a) b
    · exact hg.dependencies_nodup c
  dependents_nodup c := by
    rw [dependents_addDependency]
    split
    · exact nodup_appendNew (hg.dependents_nodup b) a
    · exact hg.dependents_nodup c

omit [SelfEqual ι] in
/-- Taking a node off several lists takes it off exactly those. -/
theorem getD_unlist (id : ι) {others : List ι} (hothers : others.Nodup)
    (d : Dict ι (List ι)) (k : ι) :
    (unlist id others d).getD k [] =
      if k ∈ others then (d.getD k []).erase id else d.getD k [] := by
  unfold unlist
  induction others generalizing d with
  | nil => simp
  | cons other rest ih =>
    obtain ⟨hnew, hrest⟩ := List.nodup_cons.1 hothers
    rw [List.foldl_cons, ih hrest, Dict.getD_insert]
    by_cases hk : k = other
    · subst hk
      simp [hnew]
    · simp [hk]

omit [SelfEqual ι] in
theorem nodup_keys_unlist (id : ι) (others : List ι) {d : Dict ι (List ι)}
    (hd : d.keys.Nodup) : (unlist id others d).keys.Nodup := by
  unfold unlist
  induction others generalizing d with
  | nil => exact hd
  | cons other rest ih => exact ih (Dict.nodup_keys_insert hd _ _)

/-- A removed node is on no list of dependents any more, its own being empty. -/
theorem EdgesCoupled.dependents_removeNode {g : Graph ι τ ν η π} (hg : g.EdgesCoupled) {id : ι}
    (hid : g.contains id = true) (k : ι) :
    (g.removeNode id).dependents k = if k = id then [] else (g.dependents k).erase id := by
  unfold removeNode
  rw [if_pos hid]
  simp only [dependents, Dict.getD_erase, getD_unlist id (hg.dependencies_nodup id)]
  by_cases hk : k = id
  · simp [hk]
  · rw [if_neg hk, if_neg hk]
    split
    · rfl
    · next hnot =>
      have hnone : id ∉ g.dependents k := fun h => hnot ((hg.mirrored id k).2 h)
      exact (List.erase_of_not_mem hnone).symm

/-- A removed node is on no list of dependencies any more, its own being empty. -/
theorem EdgesCoupled.dependencies_removeNode {g : Graph ι τ ν η π} (hg : g.EdgesCoupled) {id : ι}
    (hid : g.contains id = true) (k : ι) :
    (g.removeNode id).dependencies k = if k = id then [] else (g.dependencies k).erase id := by
  have hself : (unlist id (g.dependencies id) g.incoming).getD id [] =
      (g.dependents id).erase id := by
    rw [getD_unlist id (hg.dependencies_nodup id)]
    split
    · rfl
    · next hnot => exact (List.erase_of_not_mem fun h => hnot ((hg.mirrored id id).2 h)).symm
  unfold removeNode
  rw [if_pos hid]
  simp only [dependencies] at hself ⊢
  have hlisted : k ∈ (g.dependents id).erase id ↔ k ≠ id ∧ k ∈ g.dependents id :=
    (hg.dependents_nodup id).mem_erase_iff
  rw [hself, getD_unlist id ((hg.dependents_nodup id).erase id), Dict.getD_erase]
  by_cases hk : k = id
  · rw [if_neg fun h => (hlisted.1 h).1 hk, if_pos hk, if_pos hk]
  · rw [if_neg hk, if_neg hk]
    split
    · rfl
    · next hnot =>
      have hnone : id ∉ g.dependencies k := fun h =>
        hnot (hlisted.2 ⟨hk, (hg.mirrored k id).1 h⟩)
      exact (List.erase_of_not_mem hnone).symm

/-- Removing a node takes it off both directions, so they still agree. -/
theorem EdgesCoupled.removeNode {g : Graph ι τ ν η π} (hg : g.EdgesCoupled) (id : ι) :
    (g.removeNode id).EdgesCoupled := by
  by_cases hid : g.contains id = true
  swap
  · unfold Graph.removeNode
    rwa [if_neg hid]
  have hout := hg.dependencies_removeNode hid
  have hinc := hg.dependents_removeNode hid
  have hmem (a b : ι) :
      b ∈ (g.removeNode id).dependencies a ↔ a ≠ id ∧ b ≠ id ∧ b ∈ g.dependencies a := by
    rw [hout]
    by_cases ha : a = id
    · simp [ha]
    · rw [if_neg ha, (hg.dependencies_nodup a).mem_erase_iff]
      simp [ha]
  refine ⟨?_, fun a b hb => ?_, fun a b hb => ?_, fun a b => ?_, fun a => ?_, fun a => ?_⟩
  · unfold Graph.removeNode
    rw [if_pos hid]
    exact nodup_keys_unlist _ _ (Dict.nodup_keys_erase hg.outgoing_nodup id)
  · obtain ⟨ha, hbid, hb⟩ := (hmem a b).1 hb
    obtain ⟨hca, hcb⟩ := hg.ends a b hb
    unfold Graph.removeNode
    rw [if_pos hid]
    exact ⟨(Dict.contains_erase g.nodes id a).2 ⟨ha, hca⟩,
      (Dict.contains_erase g.nodes id b).2 ⟨hbid, hcb⟩⟩
  · exact hg.apart a b ((hmem a b).1 hb).2.2
  · rw [hmem, hinc]
    by_cases hb : b = id
    · simp [hb]
    · rw [if_neg hb, (hg.dependents_nodup b).mem_erase_iff, hg.mirrored]
      simp [hb]
  · rw [hout]
    split
    · exact List.nodup_nil
    · exact (hg.dependencies_nodup a).erase id
  · rw [hinc]
    split
    · exact List.nodup_nil
    · exact (hg.dependents_nodup a).erase id

/-- A sum over distinct keys only depends on the keys that contribute to it. -/
theorem sum_map_eq_of_support {α M : Type} [DecidableEq α] [AddCommMonoid M] {xs ys : List α}
    (hxs : xs.Nodup) (hys : ys.Nodup) (f : α → M) (hx : ∀ a, f a ≠ 0 → a ∈ xs)
    (hy : ∀ a, f a ≠ 0 → a ∈ ys) :
    (xs.map f).sum = (ys.map f).sum := by
  rw [← List.sum_toFinset f hxs, ← List.sum_toFinset f hys]
  have hunion (zs : List α) (hz : ∀ a, f a ≠ 0 → a ∈ zs) (ws : List α) :
      ∑ a ∈ zs.toFinset, f a = ∑ a ∈ zs.toFinset ∪ ws.toFinset, f a := by
    refine Finset.sum_subset Finset.subset_union_left fun a _ ha => ?_
    by_contra hne
    exact ha (List.mem_toFinset.2 (hz a hne))
  rw [hunion xs hx ys, hunion ys hy xs, Finset.union_comm]

/-- Every listed edge starts at a node, so counting the edges of all nodes misses none. -/
theorem edgeCount_eq_length_edgeList {g : Graph ι τ ν η π} (hnodes : g.nodes.keys.Nodup)
    (hg : g.EdgesCoupled) : g.edgeCount = g.edgeList.length := by
  let count (a : ι) : ℕ := (g.dependencies a).length
  have hstored : g.outgoing.values = g.outgoing.keys.map g.dependencies := by
    rw [Dict.values_eq_filterMap hg.outgoing_nodup, ← List.filterMap_eq_map]
    refine List.filterMap_congr fun a ha => ?_
    obtain ⟨ls, hls⟩ := Dict.exists_get?_of_contains ((Dict.contains_iff_mem_keys _ a).2 ha)
    simp [dependencies, Dict.getD, hls]
  have hleft : g.edgeCount = (g.outgoing.keys.map count).sum := by
    rw [edgeCount, hstored, List.length_flatten, List.map_map]
    rfl
  have hright : g.edgeList.length = (g.identifiers.map count).sum := by
    rw [edgeList, List.length_flatMap]
    simp [count]
  rw [hleft, hright]
  refine sum_map_eq_of_support hg.outgoing_nodup hnodes count (fun a ha => ?_) fun a ha => ?_
  · by_contra hnot
    have hnone := Dict.get?_eq_none_of_not_contains (mt (Dict.contains_iff_mem_keys _ a).1 hnot)
    exact ha (by simp [count, dependencies, Dict.getD, hnone])
  · obtain ⟨b, hb⟩ := List.exists_mem_of_length_pos (Nat.pos_of_ne_zero ha)
    exact (Dict.contains_iff_mem_keys _ a).1 (hg.ends a b hb).1

end CodeAtlas.Graph
