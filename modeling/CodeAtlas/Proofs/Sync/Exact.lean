import CodeAtlas.Proofs.Run.Atomic
import CodeAtlas.Proofs.Sync.Inquiry
import CodeAtlas.Proofs.Sync.Written

/-!
# Exact partitions

A sync classifies identifiers before it extracts anything, and corrects the classes when files
have vanished or extractions fail, while it edits graph and records beside. This file proves that
the classes of a completed sync are exact about what was stored before, what is published, and
what is stored then.
-/

namespace CodeAtlas

open RecordStore

/-- A partition that is exact about the identifiers that were stored, a published graph and what
its sync found out. -/
structure SyncPartition.Exact (p : SyncPartition) (stored : List String) (g : Graph)
    (q : SyncEngine.Inquiry) : Prop where
  /-- No identifier is listed twice, in one class or in two. -/
  nodup : (p.added ++ p.updated ++ p.deleted ++ p.unchanged).Nodup
  /-- All identifiers are listed that were stored or are published. -/
  covers : ∀ id, id ∈ p.added ++ p.updated ++ p.deleted ++ p.unchanged ↔
    id ∈ stored ∨ g.contains id = true
  added : ∀ id, id ∈ p.added ↔ g.contains id = true ∧ id ∉ stored
  deleted : ∀ id, id ∈ p.deleted ↔ id ∈ stored ∧ ¬g.contains id = true
  updated : ∀ id, id ∈ p.updated ↔ (g.contains id = true ∧ id ∈ stored) ∧
    (∀ x ∈ q.extractions, x.unit.identifier = id → ¬x.Raised) ∧
    (q.diff.full = true ∨ ∃ file ∈ q.diff.changed, g.sourceFile? id = some file)
  /-- Of a node that is new or counts as changed all files are extracted. -/
  extracted : ∀ u ∈ q.outline.survey.units, g.contains u.identifier = true →
    (u.identifier ∈ stored →
      q.diff.full = true ∨ ∃ file ∈ q.diff.changed, g.sourceFile? u.identifier = some file) →
    ∃ x ∈ q.extractions, x.unit = u

theorem SyncPartition.isChanged_iff {g : Graph} {changed : List String} {full : Bool}
    {id : String} : isChanged g changed full id = true ↔
      full = true ∨ ∃ file ∈ changed, g.sourceFile? id = some file := by
  unfold isChanged
  rw [Bool.or_eq_true]
  refine or_congr_right ?_
  cases g.sourceFile? id with
  | none => simp
  | some file => simp

namespace SyncEngine

variable {σ : Type} {w w' : Workspace σ}

/-- The classes of what was staged are exact about a graph that has the staged nodes. -/
theorem Staged.Fits.exact {t : Staged} {a : StoreAccess} {p head : String} {q : Inquiry}
    {g : Graph} (ht : t.Fits a p head) (hq : t.GoesBy q)
    (hfits : q.outline.Fits a.store p q.diff)
    (hunits : q.extractions.map (·.unit) = q.outline.units)
    (hnodes : g.nodes = t.graph.nodes) :
    t.draft.plan.Exact (a.store.identifiersOf p) g q := by
  have hrecords (id : String) :
      id ∈ a.store.identifiersOf p ↔ id ∈ (recordsByIdentifier a.store p).keys := by
    rw [mem_keys_recordsByIdentifier]
    exact List.mem_map
  have houtline : g.nodes = q.outline.graph.nodes := by
    rw [hnodes, ht.nodes, hq.draft]
    exact q.outline.nodes_draft q.extractions
  have hplan : t.draft.plan.Fits (a.store.identifiersOf p) g := by
    have hdraft := ht.draft.plan
    rw [ht.draft.records] at hdraft
    exact (hdraft.of_stored hrecords).congr (hnodes.trans ht.nodes)
  have hsorts : q.outline.plan.Sorts (a.store.identifiersOf p) g q.diff.changed q.diff.full := by
    have hbefore := hfits.plan
    rw [hfits.records] at hbefore
    exact (hbefore.of_stored hrecords).congr houtline
  have hdeleted : t.draft.plan.deleted.Nodup := by
    rw [hq.draft]
    exact (deleted_demoteFailed _ _).symm ▸ hsorts.deleted_nodup
  refine ⟨hplan.nodup hdeleted, hplan.covers, hplan.added, hplan.deleted, fun id => ?_,
    fun u hu hnode hchanged => ?_⟩
  · have hfailed : id ∉ Extraction.failures q.extractions ↔
        ∀ x ∈ q.extractions, x.unit.identifier = id → ¬x.Raised := by
      rw [Extraction.mem_failures]
      push Not
      rfl
    have hupdated : id ∈ t.draft.plan.updated ↔
        id ∈ q.outline.plan.updated ∧ id ∉ Extraction.failures q.extractions := by
      rw [hq.draft]
      exact mem_updated_demoteFailed _ hsorts.fits.updated_nodup
    rw [hupdated, hsorts.updated, hfailed, SyncPartition.isChanged_iff, and_assoc,
      and_comm (a := _ ∨ _)]
  · have hwanted : u.identifier ∈ q.outline.wanted := by
      unfold Outline.wanted
      by_cases hold : u.identifier ∈ a.store.identifiersOf p
      · exact List.mem_append_left _
          ((hsorts.updated _).2 ⟨⟨hnode, hold⟩, SyncPartition.isChanged_iff.2 (hchanged hold)⟩)
      · exact List.mem_append_right _ ((hsorts.fits.added _).2 ⟨hnode, hold⟩)
    have hmem : u ∈ q.extractions.map (·.unit) := by
      rw [hunits]
      refine List.mem_filter.2 ⟨List.mem_filter.2 ⟨hu, List.contains_iff_mem.2 hwanted⟩, ?_⟩
      rwa [← Graph.contains_congr houtline]
    obtain ⟨x, hx, heq⟩ := List.mem_map.1 hmem
    exact ⟨x, hx, heq⟩

/-- The partition that a completed sync reports is exact: whatever the diff says, whichever added
files have vanished and whichever extractions have failed. Its classes are duplicate-free and
apart, and cover what was stored and what is published; an identifier is deleted, added or
updated exactly if it should be. The identifiers that are stored then are those of the published
graph. -/
theorem partition_exact {e : SyncEngine σ} (he : e.collaborators.Discreet) {state : ProjectState}
    (hw : w.records.store.Consistent)
    (hfresh : w.records.Fresh)
    (hdistinct : w.records.store.Distinct state.id) {r : SyncResult}
    (hrun : (e.sync state).run w = (.ok r, w')) (hdone : r.status = .completed) :
    ∃ g q w₁, w'.registry.get? state.id = some g ∧
      (e.inquire state).run (held state w) = (.ok q, w₁) ∧
      r.full = q.diff.full ∧
      r.plan.Exact (w.records.store.identifiersOf state.id) g q ∧
      (w'.records.store.identifiersOf state.id).Perm g.identifiers := by
  obtain ⟨head, w₁, t, w₂, g, counts, advanced, w₃, hhead, -, hstage, hcommit, rfl, rfl⟩ :=
    sync_completed hrun hdone
  have hkept : w₁.records = w.records := (head_eq he hhead).1
  obtain ⟨q, w₄, hinquired, hq, hfits, hunits⟩ := stage_inquired he hhead hstage
  obtain ⟨ht, hrecords, -⟩ := stage_eq_ok he hstage
  rw [hkept] at ht hrecords
  have hstore : w₂.records.store = w.records.store := by rw [hrecords]
  have hwritten := commit_writtenBack he (hstore ▸ hw) hcommit
  rw [hstore] at hwritten
  have hexact := ht.exact hq hfits hunits hwritten.nodes
  have hpublished : (w₃.registry.put state.id state.name g).get? state.id = some g :=
    (Registry.get?_put ..).trans (if_pos rfl)
  refine ⟨g, q, w₄, hpublished, hinquired, congrArg Diff.full hq.diff, hexact, ?_⟩
  have hstored : w₃.records.store.identifiersOf state.id =
      ((w.records.store.identifiersOf state.id).filter fun id => id ∉ t.draft.plan.deleted) ++
        t.draft.plan.added := by
    rw [← ht.identifiersOf_written hw hdistinct hfresh, identifiersOf_eq, identifiersOf_eq,
      hwritten.patched.units]
  change (w₃.records.store.identifiersOf state.id).Perm g.identifiers
  have hnodes : g.identifiers.Nodup := by
    change g.nodes.keys.Nodup
    rw [hwritten.nodes, ht.nodes]
    exact ht.draft.bare.wellFormed.nodes_nodup
  have hidentifiers (id : String) : id ∈ g.identifiers ↔ g.contains id = true :=
    (Dict.contains_iff_mem_keys g.nodes id).symm
  rw [hstored]
  refine (List.perm_ext_iff_of_nodup (ht.nodup_saved hdistinct) hnodes).2 fun id => ?_
  rw [List.mem_append, List.mem_filter, decide_eq_true_eq, hidentifiers, hexact.added,
    hexact.deleted]
  tauto

end SyncEngine

/-! ## Files that vanish and files that fail -/

namespace Sample

/-- The file of a class that was not there before. -/
def newFile : List String × FileNode :=
  (["C.java"], .file "class C\x7b\x7d".toUTF8 (some targetTree))

/-- The file of a class that vanishes while it is examined. -/
def passingFile : List String × FileNode :=
  (["D.java"], .file "class D\x7b\x7d".toUTF8 (some targetTree))

/-- The analyzed workspace after one class was removed, one broken and two added, of which one
is about to vanish. -/
def unsettled : Workspace Unit :=
  { analyzed with
    files := (workspace [brokenFile, newFile, passingFile]).files
    vanishing := [Path.ofText "/D.java"] }

end Sample

open Sample in
/-- Of the two classes that were stored, the one whose file is gone is deleted, and the one whose
file is broken is left unchanged; of the two added ones, one has vanished. -/
theorem SyncEngine.partition_exact_of_sample :
    ∃ r w' g q w₁, (resyncing.sync project).run unsettled = (.ok r, w') ∧
      r.plan = ⟨["C"], [], ["A"], ["B"]⟩ ∧ w'.registry.get? project.id = some g ∧
      (resyncing.inquire project).run (held project unsettled) = (.ok q, w₁) ∧
      (∃ x ∈ q.extractions, x.unit.identifier = "B" ∧ x.Raised) ∧
      (w'.records.store.identifiersOf project.id).Perm g.identifiers := by
  have hsound := (Ledger.Undisturbed.step .start step_ledger).sound.1
  rw [← records_ledger] at hsound
  have hconsistent : unsettled.records.store.Consistent := hsound.consistent
  have hfresh : unsettled.records.Fresh := hsound.fresh
  have hstored : unsettled.records.store.identifiersOf project.id = ["A", "B"] := by
    decide +kernel
  have hdistinct : unsettled.records.store.Distinct project.id := by
    unfold RecordStore.Distinct
    rw [hstored]
    decide
  have hresult : (((resyncing.sync project).run unsettled).1.toOption.map
      fun r => (r.status, r.plan, r.full)) =
        some (.completed, ⟨["C"], [], ["A"], ["B"]⟩, true) := by
    decide +kernel
  obtain ⟨r, w', hrun, hresult⟩ := Fallible.exists_eq_ok hresult
  obtain ⟨hdone, hresult⟩ := Prod.mk.inj hresult
  obtain ⟨hplan, hall⟩ := Prod.mk.inj hresult
  obtain ⟨g, q, w₁, hpublished, hinquired, hfull, hexact, hperm⟩ :=
    partition_exact resyncing_discreet hconsistent hfresh hdistinct hrun hdone
  refine ⟨r, w', g, q, w₁, hrun, hplan, hpublished, hinquired, ?_, hperm⟩
  rw [hplan, hstored] at hexact
  have hnode : g.contains "B" = true := by
    by_contra hgone
    have hdeleted := (hexact.deleted "B").2 ⟨by decide, hgone⟩
    simp at hdeleted
  by_contra hraised
  have hupdated := (hexact.updated "B").2
    ⟨⟨hnode, by decide⟩, fun x hx hid hfailed => hraised ⟨x, hx, hid, hfailed⟩,
      Or.inl (hfull.symm.trans hall)⟩
  simp at hupdated

end CodeAtlas
