import CodeAtlas.Proofs.Agreement.Written
import CodeAtlas.Proofs.Sync.Commit
import CodeAtlas.Proofs.Sync.Relabelled

/-!
# What a sync keeps and what it writes

A sync deletes the classes of deleted units and saves those of updated and added ones; those of
unchanged ones it leaves alone. This file says which records these are, if no two of the project
have one identifier, and which units are stored afterwards.
-/

namespace CodeAtlas

open RecordStore

namespace SyncEngine

variable {p head : String} {t : Staged} {a : StoreAccess}

/-! ## Records that are deleted -/

/-- A record is deleted exactly if its identifier is. -/
theorem Draft.Fits.mem_deletedIds {d : Draft} {s : RecordStore} (hd : d.Fits s p)
    (hs : s.Consistent) (hdistinct : s.Distinct p) {r : ClassRecord}
    (hr : r ∈ s.findByProject p) : r.id ∈ deletedIds d ↔ r.identifier ∈ d.plan.deleted := by
  have hget : d.records.get? r.identifier = some r := hd.finds hdistinct hr
  constructor
  · intro hid
    obtain ⟨x, hx, heq⟩ := List.mem_map.1 hid
    obtain ⟨id, hdeleted, hfound⟩ := List.mem_filterMap.1 hx
    rw [hd.records] at hfound
    obtain ⟨hmem, rfl⟩ := get?_recordsByIdentifier hfound
    rwa [← eq_of_mem_findByProject hs hmem hr heq]
  · intro hid
    exact List.mem_map.2 ⟨r, List.mem_filterMap.2 ⟨r.identifier, hid, hget⟩, rfl⟩

theorem Staged.Fits.nodes (ht : t.Fits a p head) : t.graph.nodes = t.draft.graph.nodes := by
  obtain ⟨hrestored, hwf⟩ := restoreUnchanged_keeps a.store ht.draft
  rw [ht.graph, Graph.nodes_bindAll]
  exact (stageAllUpdated_keeps a.store head hwf _).1.trans hrestored

/-- A node whose record was stored is gone and has its record deleted, or it stays and keeps its
record and its tie. -/
theorem Staged.Fits.target_cases (ht : t.Fits a p head) (h : a.store.Distinct p)
    (hs : a.store.Consistent) {r : ClassRecord} (hr : r ∈ a.store.findByProject p) :
    (t.graph.contains r.identifier = true ∧ t.graph.classId? r.identifier = some r.id ∧
        r.id ∉ deletedIds t.draft) ∨
      (¬t.graph.contains r.identifier = true ∧ r.id ∈ deletedIds t.draft) := by
  have hd := ht.draft
  have hlabelled := ht.labelledFrom
  have hfound := hd.finds h hr
  have hkey : r.identifier ∈ t.draft.records.keys := by
    rw [hd.records, mem_keys_recordsByIdentifier]
    exact ⟨r, hr, rfl⟩
  rw [Graph.contains_congr hlabelled.nodes, hd.mem_deletedIds hs h hr, hd.plan.deleted]
  by_cases hnode : t.draft.graph.contains r.identifier = true
  · refine Or.inl ⟨hnode, ?_, fun hgone => hgone.2 hnode⟩
    rcases (hd.plan.kept r.identifier).2 ⟨hnode, hkey⟩ with hid | hid
    · exact (hlabelled.updated r hfound hid).classId
    · exact (hlabelled.unchanged r hfound hid).classId
  · exact Or.inr ⟨hnode, hkey, hnode⟩

/-! ## Records that are staged -/

/-- The record of a node that stays is not staged exactly if the node is unchanged. -/
theorem Staged.Fits.unstaged_iff (ht : t.Fits a p head) (h : a.store.Distinct p)
    (hs : a.store.Consistent) (hfresh : a.Fresh) {r : ClassRecord}
    (hr : r ∈ a.store.findByProject p) (hout : r.id ∉ deletedIds t.draft) :
    r.id ∉ (t.updated ++ t.added).map (·.id) ↔ r.identifier ∈ t.draft.plan.unchanged := by
  have hd := ht.draft
  obtain ⟨hids, -, -⟩ := ht.updated_restates
  have hkept : r.identifier ∈ t.draft.plan.updated ∨ r.identifier ∈ t.draft.plan.unchanged := by
    refine (hd.plan.kept _).2 ⟨?_, ?_⟩
    · rw [← Graph.contains_congr ht.nodes]
      rcases ht.target_cases h hs hr with hstays | hgone
      · exact hstays.1
      · exact absurd hgone.2 hout
    · rw [hd.records, mem_keys_recordsByIdentifier]
      exact ⟨r, hr, rfl⟩
  rw [List.map_append, List.mem_append, hids]
  constructor
  · intro hnot
    rcases hkept with hid | hid
    · exact absurd
        (Or.inl (List.mem_map_of_mem ((mem_updatedRecords hd).2 ⟨hd.finds h hr, hid⟩))) hnot
    · exact hid
  · rintro hid (hmem | hmem)
    · obtain ⟨x, hx, heq⟩ := List.mem_map.1 hmem
      obtain ⟨hfound, hupdated⟩ := (mem_updatedRecords hd).1 hx
      obtain rfl := eq_of_mem_findByProject hs (hd.mem_of_finds hfound) hr heq
      exact hd.plan.apart _ hupdated hid
    · have hnone := ht.getClass?_of_mem_added hfresh hmem
      rw [((mem_findByProject hs).1 hr).1] at hnone
      cases hnone

/-- No two staged records have one id: those of updated nodes keep theirs, and those of added
nodes have new ones. -/
theorem Staged.Fits.nodup_ids (ht : t.Fits a p head) (hs : a.store.Consistent)
    (hfresh : a.Fresh) : ((t.updated ++ t.added).map (·.id)).Nodup := by
  obtain ⟨hids, -, -⟩ := ht.updated_restates
  have hclass {r : ClassRecord} (hr : r ∈ updatedRecords t.draft) :
      a.store.getClass? r.id = some r :=
    ((mem_findByProject hs).1
      (ht.draft.mem_of_finds ((mem_updatedRecords ht.draft).1 hr).1)).1
  rw [List.map_append, hids, List.nodup_append]
  refine ⟨?_, ?_, fun c hc c' hc' heq => ?_⟩
  · have hnames : (updatedRecords t.draft).Pairwise fun r r' => r.identifier ≠ r'.identifier := by
      refine List.pairwise_map.1 ?_
      rw [identifiers_updatedRecords ht.draft]
      exact ht.draft.plan.updated_nodup
    refine List.pairwise_map.2 (hnames.imp_of_mem fun {r r'} hr hr' hne heq => hne ?_)
    have hget := hclass hr
    rw [heq, hclass hr'] at hget
    rw [Option.some.inj hget]
  · rw [ht.added]
    unfold addedRecords
    rw [ids_stagedRecords]
    exact nodup_idsFrom _ _
  · obtain ⟨r, hr, rfl⟩ := List.mem_map.1 hc
    have hnone := ht.getClass?_of_mem_added hfresh (heq ▸ hc')
    rw [hclass hr] at hnone
    cases hnone

/-! ## Before anything is saved -/

/-- The store of a sync before it writes the records of updated and added nodes. -/
def clearedStore (t : Staged) (s : RecordStore) : RecordStore :=
  (s.deleteClasses (deletedIds t.draft)).deleteMethodsAndLinks (t.updated.map (·.id))

theorem consistent_clearedStore {s : RecordStore} (hs : s.Consistent) (t : Staged) :
    (clearedStore t s).Consistent :=
  (hs.deleteClasses _).deleteMethodsAndLinks _

theorem mem_findByProject_clearedStore (hs : a.store.Consistent) {r : ClassRecord} :
    r ∈ (clearedStore t a.store).findByProject p ↔
      r ∈ a.store.findByProject p ∧ r.id ∉ deletedIds t.draft := by
  change r ∈ (a.store.deleteClasses (deletedIds t.draft)).findByProject p ↔ _
  rw [findByProject_deleteClasses hs]
  simp

/-- Nothing is left of the methods and links of staged nodes. -/
theorem Staged.Fits.cleared (ht : t.Fits a p head) (ha : a.Sound) {r : ClassRecord}
    (hr : r ∈ t.updated ++ t.added) :
    (clearedStore t a.store).rowsOf r.id = .empty ∧
      (clearedStore t a.store).linksFor r.id = [] := by
  unfold clearedStore
  rw [rowsOf_deleteMethodsAndLinks, linksFor_deleteMethodsAndLinks, rowsOf_deleteClasses,
    linksFor_deleteClasses]
  rcases List.mem_append.1 hr with hr | hr
  · have hmem : r.id ∈ t.updated.map (·.id) := List.mem_map_of_mem hr
    exact ⟨if_pos hmem, if_pos hmem⟩
  · rw [ht.added] at hr
    obtain ⟨k, hlo, -, hk⟩ := mem_idsFrom (mem_stagedRecords _ _ _ hr).2.2.2
    obtain ⟨hrows, hlinks⟩ := ha.cleared_of_lt hlo
    rw [hk, hrows, hlinks]
    simp

/-! ## Identifiers that are stored -/

/-- The store after the records of a staged graph were written, before anything is enriched. -/
def Staged.written (t : Staged) (s : RecordStore) : RecordStore :=
  (clearedStore t s).withStaged t.graph (t.updated ++ t.added) t.methods

/-- The class of an updated node is still stored when those of deleted ones are gone. -/
theorem Staged.Fits.restates_updated (ht : t.Fits a p head) (hs : a.store.Consistent)
    (h : a.store.Distinct p) :
    (clearedStore t a.store).Restates (fun c => a.store.getClass? c ≠ none)
      (.saveClasses t.updated) := by
  intro r hr
  obtain ⟨-, hback, -⟩ := ht.updated_restates
  obtain ⟨old, hold, hrestates⟩ := hback r hr
  obtain ⟨hfound, hid⟩ := (mem_updatedRecords ht.draft).1 hold
  have hmem := ht.draft.mem_of_finds hfound
  have hget := ((mem_findByProject hs).1 hmem).1
  have hkept : old.id ∉ deletedIds t.draft := by
    rw [ht.draft.mem_deletedIds hs h hmem]
    exact fun hgone => ((ht.draft.plan.deleted _).1 hgone).2
      ((ht.draft.plan.kept _).1 (Or.inl hid)).1
  rw [hrestates.id]
  refine ⟨by simp [hget], old, ?_, hrestates.project, hrestates.identifier⟩
  change (a.store.deleteClasses (deletedIds t.draft)).getClass? old.id = some old
  rw [getClass?_deleteClasses, if_neg hkept, hget]

section Identifiers

variable (ht : t.Fits a p head) (hs : a.store.Consistent) (hdistinct : a.store.Distinct p)
include ht hdistinct

/-- The identifiers that were stored without the deleted ones, and then the added ones, are
different ones. -/
theorem Staged.Fits.nodup_saved :
    (((a.store.identifiersOf p).filter fun id => id ∉ t.draft.plan.deleted) ++
      t.draft.plan.added).Nodup := by
  refine List.nodup_append.2 ⟨hdistinct.filter _, ht.draft.plan.added_nodup, ?_⟩
  rintro i hi _ hj rfl
  refine ((ht.draft.plan.added i).1 hj).2 ?_
  rw [ht.draft.records, mem_keys_recordsByIdentifier]
  exact List.mem_map.1 (List.mem_filter.1 hi).1

include hs

/-- These are the identifiers that are stored once the classes of staged nodes are saved. -/
theorem Staged.Fits.identifiersOf_saved (hfresh : a.Fresh) :
    ((clearedStore t a.store).saveClasses (t.updated ++ t.added)).identifiersOf p =
      ((a.store.identifiersOf p).filter fun id => id ∉ t.draft.plan.deleted) ++
        t.draft.plan.added := by
  have hcleared : (clearedStore t a.store).identifiersOf p =
      (a.store.identifiersOf p).filter fun id => id ∉ t.draft.plan.deleted := by
    change ((a.store.deleteClasses (deletedIds t.draft)).findByProject p).map _ = _
    rw [findByProject_deleteClasses hs]
    unfold identifiersOf
    rw [List.filter_map]
    congr 1
    refine List.filter_congr fun r hr => ?_
    have hiff := ht.draft.mem_deletedIds hs hdistinct hr
    by_cases hid : r.id ∈ deletedIds t.draft <;> simp [← hiff, hid]
  have hrestates := ht.restates_updated hs hdistinct
  have hkept := Patched.saveClasses (consistent_clearedStore hs t) hrestates
  have hupdated : ((clearedStore t a.store).saveClasses t.updated).identifiersOf p =
      (clearedStore t a.store).identifiersOf p := by
    rw [identifiersOf_eq, identifiersOf_eq]
    exact congrArg (fun us => (us.filter fun u => u.2.1 = p).map (·.2.2)) hkept.units
  have hnew : ∀ r ∈ t.added,
      ((clearedStore t a.store).saveClasses t.updated).getClass? r.id = none := by
    intro r hr
    have hnone := ht.getClass?_of_mem_added hfresh (List.mem_map_of_mem hr)
    rw [hkept.classes r.id fun hstored => hstored hnone]
    change (a.store.deleteClasses (deletedIds t.draft)).getClass? r.id = none
    rw [getClass?_deleteClasses, hnone, ite_self]
  have hids : (t.added.map (·.id)).Nodup := by
    rw [ht.added]
    unfold addedRecords
    rw [ids_stagedRecords]
    exact nodup_idsFrom _ _
  have hprojects : (t.added.filter fun r => r.project = p) = t.added := by
    refine List.filter_eq_self.2 fun r hr => ?_
    rw [ht.added] at hr
    exact decide_eq_true (mem_stagedRecords _ _ _ hr).1
  have hsplit : (clearedStore t a.store).saveClasses (t.updated ++ t.added) =
      ((clearedStore t a.store).saveClasses t.updated).saveClasses t.added := List.foldl_append ..
  unfold identifiersOf at hcleared hupdated ⊢
  rw [hsplit, findByProject_saveClasses_of_new hids hnew, List.map_append, hprojects,
    hupdated, hcleared, ht.identifiers_added]

theorem Staged.Fits.identifiersOf_written (hfresh : a.Fresh) :
    (t.written a.store).identifiersOf p =
      ((a.store.identifiersOf p).filter fun id => id ∉ t.draft.plan.deleted) ++
        t.draft.plan.added := by
  rw [← ht.identifiersOf_saved hs hdistinct hfresh]
  unfold Staged.written withStaged identifiersOf findByProject
  rw [classes_saveLinks, classes_putMethods]

end Identifiers

end SyncEngine

end CodeAtlas
