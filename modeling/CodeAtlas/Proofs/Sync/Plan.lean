import CodeAtlas.Proofs.Graph.Bare
import CodeAtlas.Sync.Engine

/-!
# The plan of a sync

A plan classifies the identifiers that are stored and those of the new graph. This file proves
that the plan fits both at every stage: when it is made, when vanished units are dropped, and
when failed updates are demoted.
-/

namespace CodeAtlas

theorem Graph.sourceFile?_removeNode_of_ne (g : Graph) {id j : String} (hj : j ≠ id) :
    (g.removeNode id).sourceFile? j = g.sourceFile? j := by
  unfold Graph.removeNode
  split
  · exact (Dict.get?_erase g.nodes id j).trans (if_neg hj)
  · rfl

theorem Graph.contains_removeNode (g : Graph) (id j : String) :
    (g.removeNode id).contains j = true ↔ j ≠ id ∧ g.contains j = true := by
  unfold Graph.removeNode
  by_cases hid : g.contains id = true
  · rw [if_pos hid]
    exact Dict.contains_erase g.nodes id j
  · rw [if_neg hid]
    constructor
    · rintro hj
      refine ⟨?_, hj⟩
      rintro rfl
      exact hid hj
    · exact And.right

namespace SyncPartition

/-- A plan that fits what is stored and a graph: identifiers that are only in the graph are
added, those that are only stored are deleted, those in both are updated or unchanged, and no
identifier is listed twice. -/
structure Fits (p : SyncPartition) (stored : List String) (g : Graph) : Prop where
  added : ∀ id, id ∈ p.added ↔ g.contains id = true ∧ id ∉ stored
  kept : ∀ id, (id ∈ p.updated ∨ id ∈ p.unchanged) ↔ g.contains id = true ∧ id ∈ stored
  deleted : ∀ id, id ∈ p.deleted ↔ id ∈ stored ∧ ¬g.contains id = true
  apart : ∀ id ∈ p.updated, id ∉ p.unchanged
  added_nodup : p.added.Nodup
  updated_nodup : p.updated.Nodup
  unchanged_nodup : p.unchanged.Nodup

variable {p : SyncPartition} {stored : List String} {g : Graph}

/-- Only the nodes of the graph matter. -/
theorem Fits.congr {h : Graph} (hp : p.Fits stored g) (hnodes : h.nodes = g.nodes) :
    p.Fits stored h := by
  obtain ⟨h1, h2, h3, h4, h5, h6, h7⟩ := hp
  constructor <;> simpa only [Graph.contains, hnodes]

/-- Of what is stored only the identifiers matter, not how they are listed. -/
theorem Fits.of_stored {stored' : List String} (hp : p.Fits stored g)
    (hstored : ∀ id, id ∈ stored' ↔ id ∈ stored) : p.Fits stored' g := by
  obtain ⟨h1, h2, h3, h4, h5, h6, h7⟩ := hp
  constructor <;> simpa only [hstored]

/-- A plan that fits lists no identifier twice, not even in two classes, if it deletes none
twice. -/
theorem Fits.nodup (hp : p.Fits stored g) (hdeleted : p.deleted.Nodup) :
    (p.added ++ p.updated ++ p.deleted ++ p.unchanged).Nodup := by
  refine List.nodup_append.2 ⟨List.nodup_append.2 ⟨List.nodup_append.2
    ⟨hp.added_nodup, hp.updated_nodup, ?_⟩, hdeleted, ?_⟩, hp.unchanged_nodup, ?_⟩
  · rintro i hi _ hj rfl
    exact ((hp.added i).1 hi).2 ((hp.kept i).1 (Or.inl hj)).2
  · rintro i hi _ hj rfl
    obtain ⟨hold, hgone⟩ := (hp.deleted i).1 hj
    rcases List.mem_append.1 hi with hi | hi
    · exact hgone ((hp.added i).1 hi).1
    · exact hgone ((hp.kept i).1 (Or.inl hi)).1
  · rintro i hi _ hj rfl
    obtain ⟨hnode, hold⟩ := (hp.kept i).1 (Or.inr hj)
    rcases List.mem_append.1 hi with hi | hi
    · rcases List.mem_append.1 hi with hi | hi
      · exact ((hp.added i).1 hi).2 hold
      · exact hp.apart i hi hj
    · exact ((hp.deleted i).1 hi).2 hnode

/-- A plan that fits lists whatever is stored or in the graph, and nothing else. -/
theorem Fits.covers (hp : p.Fits stored g) (id : String) :
    id ∈ p.added ++ p.updated ++ p.deleted ++ p.unchanged ↔
      id ∈ stored ∨ g.contains id = true := by
  have hall : id ∈ p.added ++ p.updated ++ p.deleted ++ p.unchanged ↔
      id ∈ p.added ∨ id ∈ p.deleted ∨ (id ∈ p.updated ∨ id ∈ p.unchanged) := by
    simp only [List.mem_append]
    tauto
  rw [hall, hp.added, hp.deleted, hp.kept]
  tauto

/-- If nothing is stored, every node is added. -/
theorem ofGraph_nil (g : Graph) (changed : List String) (full : Bool) :
    ofGraph [] g changed full = ⟨g.identifiers, [], [], []⟩ := by
  unfold ofGraph
  rw [List.partition_eq_filter_filter]
  simp [firstOccurrences]

/-- A new plan fits. -/
theorem fits_ofGraph (stored : List String) {g : Graph} (hg : g.nodes.keys.Nodup)
    (changed : List String) (full : Bool) : (ofGraph stored g changed full).Fits stored g := by
  have hmem (id : String) : id ∈ g.identifiers ↔ g.contains id = true :=
    (Dict.contains_iff_mem_keys g.nodes id).symm
  have hnodup : g.identifiers.Nodup := hg
  unfold ofGraph
  rw [List.partition_eq_filter_filter]
  constructor
  · intro id
    simp [hmem]
  · intro id
    simp only [List.mem_filter, hmem, List.contains_iff_mem]
    by_cases hchanged : isChanged g changed full id = true <;> simp [hchanged]
  · intro id
    simp [mem_firstOccurrences]
  · intro id hid hid'
    simp only [List.mem_filter] at hid hid'
    simp [hid.2] at hid'
  · exact hnodup.filter _
  · exact (hnodup.filter _).filter _
  · exact (hnodup.filter _).filter _

/-- Dropping an identifier that is not stored from plan and graph leaves a plan that fits. -/
theorem Fits.drop (hp : p.Fits stored g) {id : String} (hid : id ∉ stored) :
    ((p.drop? id).getD p).Fits stored (g.removeNode id) := by
  have hkept (j : String) : g.contains j = true ∧ j ∈ stored ↔
      (g.removeNode id).contains j = true ∧ j ∈ stored := by
    rw [Graph.contains_removeNode]
    refine ⟨fun ⟨hj, hs⟩ => ⟨⟨?_, hj⟩, hs⟩, fun ⟨⟨_, hj⟩, hs⟩ => ⟨hj, hs⟩⟩
    rintro rfl
    exact hid hs
  have hdeleted (j : String) : j ∈ stored ∧ ¬g.contains j = true ↔
      j ∈ stored ∧ ¬(g.removeNode id).contains j = true := by
    rw [Graph.contains_removeNode]
    refine and_congr_right fun hs => not_congr ⟨fun hj => ⟨?_, hj⟩, And.right⟩
    rintro rfl
    exact hid hs
  unfold drop?
  by_cases hmem : id ∈ p.added
  · rw [if_pos hmem, Option.getD_some]
    refine ⟨fun j => ?_, fun j => (hp.kept j).trans (hkept j),
      fun j => (hp.deleted j).trans (hdeleted j), hp.apart, hp.added_nodup.erase id,
      hp.updated_nodup, hp.unchanged_nodup⟩
    rw [hp.added_nodup.mem_erase_iff, hp.added, Graph.contains_removeNode, and_assoc]
  · rw [if_neg hmem, Option.getD_none]
    have habsent : ¬g.contains id = true := fun h => hmem ((hp.added id).2 ⟨h, hid⟩)
    have hsame : g.removeNode id = g := by
      unfold Graph.removeNode
      rw [if_neg habsent]
    rwa [hsame]

/-- Demoting an identifier leaves a plan that fits. -/
theorem Fits.demote (hp : p.Fits stored g) (id : String) :
    ((p.demote? id).getD p).Fits stored g := by
  unfold demote?
  by_cases hmem : id ∈ p.updated
  · rw [if_pos hmem, Option.getD_some]
    refine ⟨hp.added, fun j => ?_, hp.deleted, fun j hj => ?_, hp.added_nodup,
      hp.updated_nodup.erase id, ?_⟩
    · rw [← hp.kept j, hp.updated_nodup.mem_erase_iff, List.mem_append, List.mem_singleton]
      by_cases hj : j = id <;> simp [hj, hmem]
    · obtain ⟨hne, hj⟩ := hp.updated_nodup.mem_erase_iff.1 hj
      rw [List.mem_append, List.mem_singleton]
      rintro (hmem' | heq)
      · exact hp.apart j hj hmem'
      · exact hne heq
    · rw [List.nodup_append]
      refine ⟨hp.unchanged_nodup, by simp, fun a ha b hb heq => ?_⟩
      obtain rfl := List.mem_singleton.1 hb
      subst heq
      exact hp.apart a hmem ha
  · rw [if_neg hmem, Option.getD_none]
    exact hp

/-- A plan that fits and is exact about updates: of the identifiers that are both stored and in
the graph those are updated that count as changed. -/
structure Sorts (p : SyncPartition) (stored : List String) (g : Graph) (changed : List String)
    (full : Bool) : Prop where
  fits : p.Fits stored g
  deleted_nodup : p.deleted.Nodup
  updated : ∀ id, id ∈ p.updated ↔
    (g.contains id = true ∧ id ∈ stored) ∧ isChanged g changed full id = true

variable {changed : List String} {full : Bool}

/-- Only the nodes of the graph matter. -/
theorem Sorts.congr {h : Graph} (hp : p.Sorts stored g changed full) (hnodes : h.nodes = g.nodes) :
    p.Sorts stored h changed full where
  fits := hp.fits.congr hnodes
  deleted_nodup := hp.deleted_nodup
  updated id := by
    rw [hp.updated id, Graph.contains_congr hnodes]
    unfold isChanged
    rw [Graph.sourceFile?_congr hnodes]

theorem Sorts.of_stored {stored' : List String} (hp : p.Sorts stored g changed full)
    (hstored : ∀ id, id ∈ stored' ↔ id ∈ stored) : p.Sorts stored' g changed full where
  fits := hp.fits.of_stored hstored
  deleted_nodup := hp.deleted_nodup
  updated id := by rw [hp.updated id, hstored]

theorem sorts_ofGraph (stored : List String) {g : Graph} (hg : g.nodes.keys.Nodup)
    (changed : List String) (full : Bool) :
    (ofGraph stored g changed full).Sorts stored g changed full where
  fits := fits_ofGraph stored hg changed full
  deleted_nodup := by
    unfold ofGraph
    exact (nodup_foldl_appendNew List.nodup_nil stored).filter _
  updated id := by
    unfold ofGraph
    rw [List.partition_eq_filter_filter]
    have hmem : id ∈ g.identifiers ↔ g.contains id = true :=
      (Dict.contains_iff_mem_keys g.nodes id).symm
    simp only [List.mem_filter, hmem, List.contains_iff_mem]

/-- Dropping an identifier that is not stored leaves a plan that is exact. -/
theorem Sorts.drop (hp : p.Sorts stored g changed full) {id : String} (hid : id ∉ stored) :
    ((p.drop? id).getD p).Sorts stored (g.removeNode id) changed full where
  fits := hp.fits.drop hid
  deleted_nodup := by
    unfold drop?
    split <;> exact hp.deleted_nodup
  updated j := by
    have hsame : ((p.drop? id).getD p).updated = p.updated := by
      unfold drop?
      split <;> rfl
    rw [hsame, hp.updated j, Graph.contains_removeNode]
    by_cases hj : j = id
    · simp [hj, hid]
    · unfold isChanged
      rw [Graph.sourceFile?_removeNode_of_ne g hj]
      simp [hj]

end SyncPartition

namespace SyncEngine

variable {stored : List String} {g : Graph} {p : SyncPartition}

/-- Dropping what has vanished keeps the graph bare and the plan fitting. -/
theorem dropVanished_spec (t : FileTree) (paths : Dict String Path) (hg : g.Bare)
    (hp : p.Fits stored g) :
    (dropVanished t paths g p).1.Bare ∧
      (dropVanished t paths g p).2.Fits stored (dropVanished t paths g p).1 := by
  have hadded : ∀ id ∈ p.added, id ∉ stored := fun id hid => ((hp.added id).1 hid).2
  unfold dropVanished
  generalize p.added = ids at hadded
  induction ids generalizing g p with
  | nil => exact ⟨hg, hp⟩
  | cons id rest ih =>
    have hrest : ∀ j ∈ rest, j ∉ stored := fun j hj => hadded j (List.mem_cons_of_mem _ hj)
    rw [List.foldl_cons]
    split
    · exact ih hg hp hrest
    · exact ih (hg.removeNode id) (hp.drop (hadded id (List.mem_cons_self ..))) hrest

/-- Dropping what has vanished keeps the plan exact about updates. -/
theorem sorts_dropVanished (t : FileTree) (paths : Dict String Path) {changed : List String}
    {full : Bool} (hp : p.Sorts stored g changed full) :
    (dropVanished t paths g p).2.Sorts stored (dropVanished t paths g p).1 changed full := by
  have hadded : ∀ id ∈ p.added, id ∉ stored := fun id hid => ((hp.fits.added id).1 hid).2
  unfold dropVanished
  generalize p.added = ids at hadded
  induction ids generalizing g p with
  | nil => exact hp
  | cons id rest ih =>
    have hrest : ∀ j ∈ rest, j ∉ stored := fun j hj => hadded j (List.mem_cons_of_mem _ hj)
    rw [List.foldl_cons]
    split
    · exact ih hp hrest
    · exact ih (hp.drop (hadded id (List.mem_cons_self ..))) hrest

/-- The nodes that are left have the files that they had. -/
theorem sourceFile?_dropVanished (t : FileTree) (paths : Dict String Path) {plan : SyncPartition}
    {id : String} (hid : (dropVanished t paths g plan).1.contains id = true) :
    g.contains id = true ∧ (dropVanished t paths g plan).1.sourceFile? id = g.sourceFile? id := by
  unfold dropVanished at hid ⊢
  generalize hplan : plan = q at hid ⊢
  generalize q.added = ids at hid ⊢
  clear hplan
  induction ids generalizing g q with
  | nil => exact ⟨hid, rfl⟩
  | cons j rest ih =>
    rw [List.foldl_cons] at hid ⊢
    split at hid
    · next hfile =>
      rw [if_pos hfile]
      exact ih q hid
    · next hfile =>
      rw [if_neg hfile]
      obtain ⟨hrest, hkept⟩ := ih _ hid
      obtain ⟨hne, hnode⟩ := (g.contains_removeNode j id).1 hrest
      exact ⟨hnode, hkept.trans (g.sourceFile?_removeNode_of_ne hne)⟩

/-- Nothing is dropped while all files are there. -/
theorem dropVanished_of_isFile {t : FileTree} {paths : Dict String Path} {plan : SyncPartition}
    (h : ∀ id ∈ plan.added, ∃ p, paths.get? id = some p ∧ t.isFile p = true) :
    dropVanished t paths g plan = (g, plan) := by
  unfold dropVanished
  generalize hids : plan.added = ids at h
  clear hids
  induction ids with
  | nil => rfl
  | cons id rest ih =>
    obtain ⟨p, hp, hfile⟩ := h id (List.mem_cons_self ..)
    rw [List.foldl_cons, hp, Option.map_some, hfile, Option.getD_some, if_pos rfl]
    exact ih fun j hj => h j (List.mem_cons_of_mem _ hj)

/-- Failed updates are no longer updated, and nothing else changes about updates. -/
theorem mem_updated_demoteFailed (failed : List String) (hp : p.updated.Nodup) {id : String} :
    id ∈ (demoteFailed failed p).updated ↔ id ∈ p.updated ∧ id ∉ failed := by
  have hmain (ids : List String) (q : SyncPartition) (hq : q.updated.Nodup) :
      id ∈ (ids.foldl (fun p j => if failed.contains j then (p.demote? j).getD p else p)
          q).updated ↔ id ∈ q.updated ∧ ¬(id ∈ ids ∧ id ∈ failed) := by
    induction ids generalizing q with
    | nil => simp
    | cons j rest ih =>
      rw [List.foldl_cons]
      by_cases hj : failed.contains j = true
      · have hstep : ((q.demote? j).getD q).updated = q.updated.erase j := by
          unfold SyncPartition.demote?
          split
          · rfl
          · next hout => exact (List.erase_of_not_mem hout).symm
        have hfailed : j ∈ failed := List.contains_iff_mem.1 hj
        rw [if_pos hj, ih _ (by rw [hstep]; exact hq.erase j), hstep, hq.mem_erase_iff]
        by_cases heq : id = j
        · simp [heq, hfailed]
        · simp [heq]
      · have hout : j ∉ failed := fun hmem => hj (List.contains_iff_mem.2 hmem)
        rw [if_neg hj, ih q hq]
        by_cases heq : id = j
        · simp [heq, hout]
        · simp [heq]
  unfold demoteFailed
  rw [hmain _ _ hp]
  tauto

theorem deleted_demoteFailed (failed : List String) (p : SyncPartition) :
    (demoteFailed failed p).deleted = p.deleted := by
  unfold demoteFailed
  generalize p.updated = ids
  induction ids generalizing p with
  | nil => rfl
  | cons id rest ih =>
    rw [List.foldl_cons, ih]
    split
    · unfold SyncPartition.demote?
      split <;> rfl
    · rfl

/-- Nothing is demoted while no extraction fails. -/
theorem demoteFailed_nil (plan : SyncPartition) : demoteFailed [] plan = plan := by
  unfold demoteFailed
  induction plan.updated with
  | nil => rfl
  | cons id rest ih =>
    rw [List.foldl_cons, List.contains_nil]
    exact ih

/-- Demoting failed updates keeps the plan fitting. -/
theorem fits_demoteFailed (failed : List String) (hp : p.Fits stored g) :
    (demoteFailed failed p).Fits stored g := by
  unfold demoteFailed
  generalize p.updated = ids
  induction ids generalizing p with
  | nil => exact hp
  | cons id rest ih =>
    rw [List.foldl_cons]
    split
    · exact ih (hp.demote id)
    · exact ih hp

end SyncEngine

end CodeAtlas
