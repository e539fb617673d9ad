import CodeAtlas.Proofs.Agreement.Analyzed
import CodeAtlas.Proofs.Run.Filed
import CodeAtlas.Proofs.Source.Named
import CodeAtlas.Proofs.Sync.Course
import CodeAtlas.Proofs.Sync.Exact

/-!
# Records and their source files

A class record names the source file of its unit. After an analysis that is the file that the
published graph has for the node. This file proves what becomes of it in a sync: updated and added
records get the files of their nodes, and unchanged ones keep those that they had, even where their
units have moved to files that the differences do not list.
-/

namespace CodeAtlas

open RecordStore

variable {σ : Type} {w w' : Workspace σ} {p q : String}

/-! ## Records that are filed -/

namespace RecordStore

variable {s t : RecordStore}

/-- What is stored where all units and source files have been kept was stored before. -/
theorem exists_record_of_keepsFiles (hs : s.Consistent) (ht : t.Consistent)
    (hunits : t.units = s.units) (hfiles : KeepsFiles s t) {r : ClassRecord}
    (hr : r ∈ t.findByProject p) :
    ∃ r' ∈ s.findByProject p, r'.id = r.id ∧ r'.identifier = r.identifier ∧
      r'.sourceFile = r.sourceFile := by
  obtain ⟨hget, hproject⟩ := (mem_findByProject ht).1 hr
  obtain ⟨r', hget', hproject', hidentifier⟩ := exists_getClass?_of_units hunits.symm hget
  have hid := hs.classes_keyed r.id r' hget'
  have hfile := hfiles r.id
  rw [hget, hget'] at hfile
  exact ⟨r', (mem_findByProject hs).2 ⟨by rwa [hid], hproject'.trans hproject⟩, hid, hidentifier,
    (Option.some.inj hfile).symm⟩

theorem identifiersOf_congr (h : t.units = s.units) (p : String) :
    t.identifiersOf p = s.identifiersOf p := by
  rw [identifiersOf_eq, identifiersOf_eq, h]

end RecordStore

namespace Graph

variable {g now : Graph} {s t : RecordStore}

/-- Whether a project's records list the nodes of a graph, one for each, with their source
files. -/
structure Filed (g : Graph) (s : RecordStore) (p : String) : Prop where
  distinct : s.Distinct p
  listed : ∀ id, id ∈ s.identifiersOf p ↔ g.contains id = true
  files : ∀ r ∈ s.findByProject p, g.sourceFile? r.identifier = some r.sourceFile

/-- Runs of other projects do not show. -/
theorem Filed.of_frame (h : g.Filed s p) (hframe : RecordStore.Frame q s t) (hq : q ≠ p) :
    g.Filed t p := by
  have hsame := hframe.classes p hq.symm
  have hidentifiers : t.identifiersOf p = s.identifiersOf p := by
    unfold identifiersOf
    rw [hsame]
  refine ⟨?_, fun id => ?_, fun r hr => h.files r (hsame ▸ hr)⟩
  · unfold Distinct
    rw [hidentifiers]
    exact h.distinct
  · rw [hidentifiers]
    exact h.listed id

/-- Neither do answers that are written back. -/
theorem Filed.of_writtenBack (h : g.Filed s p) (hs : s.Consistent) {ids : List String}
    (hback : WrittenBack ids g s now t) (hfiles : KeepsFiles s t) : now.Filed t p := by
  have hidentifiers := identifiersOf_congr hback.patched.units p
  refine ⟨?_, fun id => ?_, fun r hr => ?_⟩
  · unfold Distinct
    rw [hidentifiers]
    exact h.distinct
  · rw [hidentifiers, contains_congr hback.nodes]
    exact h.listed id
  · obtain ⟨r', hr', -, hidentifier, hfile⟩ :=
      exists_record_of_keepsFiles hs hback.patched.consistent hback.patched.units hfiles hr
    have hfiled := h.files r' hr'
    rw [sourceFile?_congr hback.nodes, ← hidentifier, ← hfile]
    exact hfiled

/-- Whether a node that was there before has another source file now. -/
def Moved (before g : Graph) (id : String) : Prop :=
  before.contains id = true ∧ g.contains id = true ∧ g.sourceFile? id ≠ before.sourceFile? id

end Graph

/-! ## Analyses -/

namespace FreshAnalysis

/-- The records that replace those of a project list the nodes with their files. -/
theorem replaceRecords_filed (hw : w.records.Sound) {commit : Option String} {g h : Graph}
    (hg : g.Bare)
    (hrun : (replaceRecords (Snapshot.take w.records.store p) commit g : Run σ Graph).run w =
      (.ok h, w')) : h.Filed w'.records.store p := by
  have hadv := (replaceRecords_advances (p := p) hw commit hg.untied).records
  rw [hrun] at hadv
  have hs := hadv.sound.consistent
  have hagrees := replaceRecords_agrees hw hg hrun
  obtain ⟨w₁, rs, methods, -, hrs, rfl, -, hwrite⟩ := replaceRecords_eq_ok hrun
  have hids : (rs.map (·.id)).Nodup := by
    rw [hrs, ids_stagedRecords]
    exact nodup_idsFrom _ _
  have htied : (g.bindAll rs).BoundTo fun c => c ∈ rs.map (·.id) :=
    (Graph.BoundTo.of_empty hg.untied).bindAll fun r hr => List.mem_map_of_mem hr
  refine ⟨hagrees.distinct hs, fun id => ⟨fun hid => ?_, fun hid => ?_⟩, fun r hr => ?_⟩
  · obtain ⟨r, hr, rfl⟩ := List.mem_map.1 hid
    exact (hagrees.covered r hr).1
  · obtain ⟨r, hr, rfl, -⟩ := hagrees.stored id hid
    exact List.mem_map_of_mem hr
  · obtain ⟨x, hx, hid⟩ := List.mem_map.1 (htied _ _ (hagrees.covered r hr).2)
    have hget := ((mem_findByProject hs).1 hr).1
    rw [writeStaged_eq_ok hwrite, ← hid, getClass?_withStaged,
      getClass?_saveClasses_of_mem hids hx] at hget
    obtain rfl := Option.some.inj hget
    have hfile : (x.identifier, x.sourceFile) ∈ g.nodes.toList := by
      rw [← files_stagedRecords _ commit g w₁.records.issued g.nodes.toList, ← hrs]
      exact List.mem_map_of_mem hx
    rw [Graph.sourceFile?_congr (Graph.nodes_bindAll ..)]
    exact (Dict.mem_entries_iff hg.wellFormed.nodes_nodup _ _).1 hfile

theorem store_filed {c : Collaborators σ} (hc : c.Discreet) (hw : w.records.Sound) {g : Graph}
    (hg : g.Bare) {repository : Path} {e : Examiner} {state : ProjectState}
    {commit : Option String} {r : Graph × EnrichmentCounts × ProjectState}
    (hrun : (store c repository e state commit (Snapshot.take w.records.store p) g).run w =
      (.ok r, w')) : r.1.Filed w'.records.store p := by
  obtain ⟨h, w₁, enriched, w₂, hreplace, henrich, hkept, rfl⟩ := store_eq_ok hc hrun
  have hadv := (replaceRecords_advances (p := p) hw commit hg.untied).records
  rw [hreplace] at hadv
  have hfiled := replaceRecords_filed hw hg hreplace
  rw [hkept]
  rcases enrichAll_eq_ok henrich with ⟨rfl, rfl⟩ | ⟨enricher, henricher, henrich⟩
  · exact hfiled
  · have hasked := hc.enricher _ henricher
    exact hfiled.of_writtenBack hadv.sound.consistent
      (Graph.enrich_writtenBack hadv.sound.consistent hasked henrich)
      (Graph.enrich_keepsFiles hadv.sound.consistent hasked henrich)

/-- An analysis leaves records that list the nodes of its graph with their files. -/
theorem runWith_filed {c : Collaborators σ} (hc : c.Discreet) (hw : w.records.Sound)
    {repository : Path} {state : ProjectState} {given : Option Examiner}
    {tools : Tooling} {a : FreshAnalysis}
    (hrun : (runWith c repository state given tools).run w = (.ok a, w')) :
    a.graph.Filed w'.records.store state.id := by
  obtain ⟨e, f, counts, w₁, w₂, hrecords, hbare, hstore, hkept⟩ := runWith_stored hc hrun
  rw [← hrecords] at hw
  rw [hkept]
  exact store_filed hc hw hbare hstore

end FreshAnalysis

/-! ## Syncs -/

/-- Without failed extractions, the unchanged identifiers are those that are stored and published
and whose nodes do not count as changed. -/
theorem SyncPartition.Exact.mem_unchanged {plan : SyncPartition} {stored : List String}
    {g : Graph} {i : SyncEngine.Inquiry} (h : plan.Exact stored g i)
    (hok : Extraction.failures i.extractions = []) {id : String} :
    id ∈ plan.unchanged ↔ (g.contains id = true ∧ id ∈ stored) ∧
      ¬(i.diff.full = true ∨ ∃ file ∈ i.diff.changed, g.sourceFile? id = some file) := by
  have hupdated : id ∈ plan.updated ↔ (g.contains id = true ∧ id ∈ stored) ∧
      (i.diff.full = true ∨ ∃ file ∈ i.diff.changed, g.sourceFile? id = some file) := by
    rw [h.updated]
    exact and_congr_right fun _ =>
      and_iff_right fun x hx _ hraised => Extraction.failures_eq_nil.1 hok x hx hraised
  have hadded := h.added id
  have hdeleted := h.deleted id
  have hcovers := h.covers id
  have hapart : id ∈ plan.unchanged → id ∉ plan.added ++ plan.updated ++ plan.deleted :=
    fun hid hmem => (List.nodup_append.1 h.nodup).2.2 id hmem id hid rfl
  rw [List.mem_append, List.mem_append, List.mem_append] at hcovers
  rw [List.mem_append, List.mem_append] at hapart
  clear h hok
  grind

namespace SyncEngine

variable {e : SyncEngine σ} {head : String} {t : Staged} {a : StoreAccess} {s : RecordStore}
  {g : Graph}

/-- The record of an updated node gets the node's file. -/
theorem files_stageAllUpdated (s : RecordStore) (head : String) (olds : List ClassRecord)
    (hfiles : ∀ id, g.sourceFile? id ≠ some "") :
    ∀ r ∈ (stageAllUpdated s head g olds).2, g.contains r.identifier = true →
      g.sourceFile? r.identifier = some r.sourceFile := by
  induction olds generalizing g with
  | nil => exact fun r hr => by cases hr
  | cons old rest ih =>
    have hnodes := nodes_stageUpdated s head g old
    have hsame := Graph.sourceFile?_congr hnodes
    intro r hr hnode
    rcases List.mem_cons.1 hr with rfl | hr
    · obtain ⟨file, hfile⟩ := Dict.exists_get?_of_contains hnode
      change g.sourceFile? old.identifier = some file at hfile
      have hfound := (hsame old.identifier).trans hfile
      change g.sourceFile? old.identifier = some
        (if (((stageUpdated s head g old).1.sourceFile? old.identifier).getD old.sourceFile).isEmpty
          then old.sourceFile
          else ((stageUpdated s head g old).1.sourceFile? old.identifier).getD old.sourceFile)
      rw [hfound, hfile, Option.getD_some, if_neg]
      rw [String.isEmpty_iff]
      rintro rfl
      exact hfiles _ hfile
    · rw [← hsame]
      exact ih (fun id => by rw [hsame]; exact hfiles id) r hr
        ((Graph.contains_congr hnodes _).trans hnode)

/-- The record of a node that a sync stages has the node's file. -/
theorem Staged.Fits.files_staged (ht : t.Fits a p head)
    (hfiles : ∀ id, t.graph.sourceFile? id ≠ some "") {r : ClassRecord}
    (hr : r ∈ t.updated ++ t.added) (hnode : t.graph.contains r.identifier = true) :
    t.graph.sourceFile? r.identifier = some r.sourceFile := by
  have hretied (id : String) :
      (retie a.store head t.draft).1.sourceFile? id = t.graph.sourceFile? id := by
    rw [ht.graph, Graph.sourceFile?_congr (Graph.nodes_bindAll ..)]
  rcases List.mem_append.1 hr with hr | hr
  · have hrestored : (restoreUnchanged a.store t.draft).nodes = t.graph.nodes :=
      (restoreUnchanged_keeps a.store ht.draft).1.trans ht.nodes.symm
    have hsame := Graph.sourceFile?_congr hrestored
    rw [ht.updated] at hr
    rw [← hsame]
    exact files_stageAllUpdated a.store head _ (fun id => by rw [hsame]; exact hfiles id) r hr
      ((Graph.contains_congr hrestored _).trans hnode)
  · have hlisted : (r.identifier, r.sourceFile) ∈ addedFiles t.draft
        (retie a.store head t.draft).1 := by
      rw [← files_stagedRecords p (some head) (retie a.store head t.draft).1 a.issued
        (addedFiles t.draft (retie a.store head t.draft).1)]
      rw [ht.added] at hr
      exact List.mem_map_of_mem hr
    obtain ⟨id, -, heq⟩ := List.mem_map.1 hlisted
    obtain ⟨rfl, hfile⟩ := Prod.mk.inj heq
    obtain ⟨file, hfound⟩ := Dict.exists_get?_of_contains hnode
    change t.graph.sourceFile? r.identifier = some file at hfound
    rw [hretied, hfound] at hfile
    rw [hfound, ← hfile]
    rfl

/-- What is stored of a project once a sync has written its records: the class of an unchanged
node as it was, or one that was staged. -/
theorem Staged.Fits.stored_cases (ht : t.Fits a p head) (ha : a.Sound)
    (hdistinct : a.store.Distinct p) {c : String} {r : ClassRecord}
    (hget : (t.written a.store).getClass? c = some r) (hproject : r.project = p) :
    (r ∈ a.store.findByProject p ∧ r.identifier ∈ t.draft.plan.unchanged) ∨
      (r ∈ t.updated ++ t.added ∧ r.identifier ∉ t.draft.plan.unchanged ∧
        t.graph.contains r.identifier = true) := by
  have hs := ha.consistent
  unfold Staged.written at hget
  rw [getClass?_withStaged] at hget
  by_cases hstaged : c ∈ (t.updated ++ t.added).map (·.id)
  · obtain ⟨x, hx, -, hsaved⟩ := exists_getClass?_saveClasses (s := clearedStore t a.store) hstaged
    rw [hsaved] at hget
    obtain rfl := Option.some.inj hget
    refine Or.inr ⟨hx, ?_⟩
    rw [Graph.contains_congr ht.nodes]
    rcases List.mem_append.1 hx with hx | hx
    · obtain ⟨-, hback, -⟩ := ht.updated_restates
      obtain ⟨old, hold, hrestates⟩ := hback x hx
      obtain ⟨-, hupdated⟩ := (mem_updatedRecords ht.draft).1 hold
      rw [hrestates.identifier]
      exact ⟨ht.draft.plan.apart _ hupdated, ((ht.draft.plan.kept _).1 (Or.inl hupdated)).1⟩
    · have hmem : x.identifier ∈ t.draft.plan.added := by
        rw [← ht.identifiers_added]
        exact List.mem_map_of_mem hx
      obtain ⟨hnode, hnew⟩ := (ht.draft.plan.added _).1 hmem
      exact ⟨fun hunchanged => hnew ((ht.draft.plan.kept _).1 (Or.inr hunchanged)).2, hnode⟩
  · rw [getClass?_saveClasses_of_not_mem hstaged] at hget
    have hid : r.id = c := (consistent_clearedStore hs t).classes_keyed c r hget
    have hmem : r ∈ (clearedStore t a.store).findByProject p :=
      (mem_findByProject (consistent_clearedStore hs t)).2 ⟨hid ▸ hget, hproject⟩
    obtain ⟨hr, hout⟩ := (mem_findByProject_clearedStore hs).1 hmem
    exact Or.inl ⟨hr, (ht.unstaged_iff hdistinct hs ha.fresh hr hout).1 (hid ▸ hstaged)⟩

/-- The class of an unchanged node is stored as it was. -/
theorem Staged.Fits.getClass?_unchanged (ht : t.Fits a p head) (ha : a.Sound)
    (hdistinct : a.store.Distinct p) {r : ClassRecord} (hr : r ∈ a.store.findByProject p)
    (hunchanged : r.identifier ∈ t.draft.plan.unchanged) :
    (t.written a.store).getClass? r.id = some r := by
  have hs := ha.consistent
  have hout : r.id ∉ deletedIds t.draft := by
    rw [ht.draft.mem_deletedIds hs hdistinct hr]
    exact fun hgone => ((ht.draft.plan.deleted _).1 hgone).2
      ((ht.draft.plan.kept _).1 (Or.inr hunchanged)).1
  unfold Staged.written
  rw [getClass?_withStaged, getClass?_saveClasses_of_not_mem
    ((ht.unstaged_iff hdistinct hs ha.fresh hr hout).2 hunchanged)]
  exact ((mem_findByProject (consistent_clearedStore hs t)).1
    ((mem_findByProject_clearedStore hs).2 ⟨hr, hout⟩)).1

/-- What is written after the staged records keeps all source files. -/
theorem commit_keepsFiles (he : e.collaborators.Discreet) {state : ProjectState}
    (hw : w.records.store.Consistent) {r : Graph × EnrichmentCounts × ProjectState}
    (hrun : (e.commit state head t).run w = (.ok r, w')) :
    KeepsFiles (t.written w.records.store) w'.records.store := by
  obtain ⟨hconsistent, ⟨-, hstore⟩ | ⟨_, w₁, _, _, henricher, hwritten, henrich, hkept⟩⟩ :=
    commit_cases he hw hrun
  · rw [hstore]
    exact .refl _
  · rw [← hwritten] at hconsistent ⊢
    rw [hkept]
    exact Graph.enrich_keepsFiles hconsistent henricher henrich

/-- No unit that is found in a tree with named entries is in a file without a path. -/
theorem inquire_sourceFile?_ne_empty (hstill : e.versionControl.Still) {state : ProjectState}
    (hnamed : w.files.Named) {i : Inquiry} (hrun : (e.inquire state).run w = (.ok i, w'))
    (id : String) : i.outline.graph.sourceFile? id ≠ some "" := by
  obtain ⟨w₁, w₂, hhead, hdiff, -, hexamined⟩ := inquire_eq_ok hrun
  have htree : Run.tree w₂ = Run.tree w :=
    ((hstill.diff _ _ _).eq hdiff).trans ((hstill.head _).eq hhead)
  obtain ⟨hsees, -⟩ := examined_sees (P := fun _ _ => True)
    (fun _ _ _ _ => Fallible.Ensures.trivial _) hexamined
  rw [show w₂.files = w.files from (Prod.mk.inj htree).1] at hsees
  intro hfile
  have hnode : i.outline.graph.contains id = true := Dict.contains_of_get?_eq_some hfile
  refine hsees.covers.sourceFile?_ne_empty hnamed id ?_
  rw [← (hsees.nodes id hnode).2]
  exact hfile

/-- A completed sync of a tree with named entries: the partition is exact; the records of
unchanged units, one for each, have the files that they had before, and all others have those of
their nodes. -/
theorem sync_filed (he : e.collaborators.Discreet) (hstill : e.versionControl.Still)
    (hw : w.records.Sound) (hnamed : w.files.Named) {state : ProjectState} {before : Graph}
    (hbefore : before.Filed w.records.store state.id) {r : SyncResult}
    (hrun : (e.sync state).run w = (.ok r, w')) (hdone : r.status = .completed) :
    ∃ g i w₁, w'.registry.get? state.id = some g ∧
      (e.inquire state).run (held state w) = (.ok i, w₁) ∧
      r.plan.Exact (w.records.store.identifiersOf state.id) g i ∧
      (∀ id ∈ r.plan.unchanged, ∃ c ∈ w'.records.store.findByProject state.id,
        c.identifier = id) ∧
      ∀ c ∈ w'.records.store.findByProject state.id, g.contains c.identifier = true ∧
        if c.identifier ∈ r.plan.unchanged then before.sourceFile? c.identifier = some c.sourceFile
        else g.sourceFile? c.identifier = some c.sourceFile := by
  have hs := hw.consistent
  obtain ⟨head, w₁, t, w₂, g, counts, advanced, w₃, hhead, -, hstage, hcommit, rfl, rfl⟩ :=
    sync_completed hrun hdone
  obtain ⟨i, w₄, hinquired, hgoes, houtline, hunits⟩ := stage_inquired he hhead hstage
  obtain ⟨ht, hrecords, -⟩ := stage_eq_ok he hstage
  rw [(head_eq he hhead).1] at ht hrecords
  have hstore : w₂.records.store = w.records.store := by
    rw [hrecords]
    rfl
  have hback := commit_writtenBack he (hstore ▸ hs) hcommit
  have hkept := commit_keepsFiles he (hstore ▸ hs) hcommit
  rw [hstore] at hback hkept
  have hexact := ht.exact hgoes houtline hunits hback.nodes
  have hgraph (id : String) : t.graph.sourceFile? id = g.sourceFile? id :=
    (Graph.sourceFile?_congr hback.nodes id).symm
  have hfiles (id : String) : t.graph.sourceFile? id ≠ some "" := by
    rw [Graph.sourceFile?_congr ht.nodes, hgoes.draft,
      Graph.sourceFile?_congr (i.outline.nodes_draft _)]
    exact inquire_sourceFile?_ne_empty (w := held state w) hstill hnamed hinquired id
  refine ⟨g, i, w₄, (Registry.get?_put ..).trans (if_pos rfl), hinquired, hexact,
    fun id hid => ?_, fun c hc => ?_⟩
  · obtain ⟨r, hr, rfl⟩ := ht.draft.exists_record (Or.inr hid)
    obtain ⟨r', hr', hproject, hidentifier⟩ := exists_getClass?_of_units hback.patched.units
      (ht.getClass?_unchanged hw hbefore.distinct hr hid)
    have hkey := hback.patched.consistent.classes_keyed _ _ hr'
    refine ⟨r', (mem_findByProject hback.patched.consistent).2 ⟨by rwa [hkey], ?_⟩, hidentifier⟩
    exact hproject.trans ((mem_findByProject hs).1 hr).2
  · obtain ⟨hget, hproject⟩ := (mem_findByProject hback.patched.consistent).1 hc
    obtain ⟨x, hx, hxproject, hidentifier⟩ :=
      exists_getClass?_of_units hback.patched.units.symm hget
    have hfile : x.sourceFile = c.sourceFile := by
      have hsame := hkept c.id
      rw [hget, hx] at hsame
      exact (Option.some.inj hsame).symm
    change g.contains c.identifier = true ∧ if c.identifier ∈ t.draft.plan.unchanged then _ else _
    rw [← hidentifier, ← hfile, ← Graph.contains_congr hback.nodes.symm, ← hgraph]
    rcases ht.stored_cases hw hbefore.distinct hx (hxproject.trans hproject) with
      ⟨hold, hunchanged⟩ | ⟨hstaged, hnot, hnode⟩
    · rw [if_pos hunchanged]
      refine ⟨?_, hbefore.files x hold⟩
      rw [Graph.contains_congr ht.nodes]
      exact ((ht.draft.plan.kept _).1 (Or.inr hunchanged)).1
    · rw [if_neg hnot]
      exact ⟨hnode, ht.files_staged hfiles hstaged hnode⟩

end SyncEngine

/-- Source files after an analysis and a sync, whatever an enricher says and whatever other
projects do meanwhile. Each record has the file of its node in the published graph, unless its unit
is reported as unchanged: then it has the file of the analysis still. So, if no extraction has
failed, all records have the files of their nodes exactly if every unit that has moved to another
file since the analysis has one that the differences list. A unit can move although its new file
has not changed. -/
theorem Ledger.Reachable.files_after_sync {l : Ledger} (hl : l.Reachable) {c : Collaborators σ}
    (hc : c.Discreet) {state : ProjectState} {given : Option Examiner} {tools : Tooling}
    {a : FreshAnalysis} (hw : w.records = l.records)
    (hanalyzed : (FreshAnalysis.runWith c (Path.ofText state.repoPath) state given tools).run w =
      (.ok a, w')) {v v' : Workspace σ} (hq : q ≠ state.id)
    (hbetween : StoreAccess.Advances q w'.records v.records) {e : SyncEngine σ}
    (he : e.collaborators.Discreet) (hstill : e.versionControl.Still) (hnamed : v.files.Named)
    {r : SyncResult} (hsynced : (e.sync a.summary.state).run v = (.ok r, v'))
    (hdone : r.status = .completed) :
    ∃ g i v₁, v'.registry.get? state.id = some g ∧
      (e.inquire a.summary.state).run (SyncEngine.held a.summary.state v) = (.ok i, v₁) ∧
      (∀ c ∈ v'.records.store.findByProject state.id, g.contains c.identifier = true ∧
        if c.identifier ∈ r.plan.unchanged then
          a.graph.sourceFile? c.identifier = some c.sourceFile
        else g.sourceFile? c.identifier = some c.sourceFile) ∧
      (Extraction.failures i.extractions = [] →
        ((∀ c ∈ v'.records.store.findByProject state.id,
            g.sourceFile? c.identifier = some c.sourceFile) ↔
          ∀ id, a.graph.Moved g id →
            i.diff.full = true ∨ ∃ file ∈ i.diff.changed, g.sourceFile? id = some file)) := by
  have hanalysis := FreshAnalysis.runWith_filed hc (hw ▸ hl.sound) hanalyzed
  obtain ⟨-, commit, hadvanced⟩ := FreshAnalysis.runWith_coherent hc hanalyzed
  have hid : a.summary.state.id = state.id := by
    rw [hadvanced]
    rfl
  have hfiled := hanalysis.of_frame hbetween.frame hq
  rw [← hid] at hfiled ⊢
  obtain ⟨g, i, v₁, hpublished, hinquired, hexact, hlisted, hrecords⟩ :=
    SyncEngine.sync_filed he hstill hbetween.sound hnamed hfiled hsynced hdone
  refine ⟨g, i, v₁, hpublished, hinquired, hrecords, fun hok => ⟨fun hall id hmoved => ?_,
    fun hmoves c hmem => ?_⟩⟩
  · obtain ⟨hold, hnode, hfile⟩ := hmoved
    by_contra hunlisted
    have hunchanged := (hexact.mem_unchanged hok).2 ⟨⟨hnode, (hfiled.listed id).2 hold⟩, hunlisted⟩
    obtain ⟨c, hmem, rfl⟩ := hlisted id hunchanged
    have hkept := (hrecords c hmem).2
    rw [if_pos hunchanged] at hkept
    exact hfile ((hall c hmem).trans hkept.symm)
  · obtain ⟨hnode, hfile⟩ := hrecords c hmem
    split at hfile
    · next hunchanged =>
      obtain ⟨⟨-, hstored⟩, hunlisted⟩ := (hexact.mem_unchanged hok).1 hunchanged
      by_contra hstale
      refine hunlisted (hmoves c.identifier ⟨(hfiled.listed _).1 hstored, hnode, ?_⟩)
      rwa [hfile]
    · exact hfile

/-! ## Two files of one identifier -/

namespace Sample

/-- The second of two files of one identifier. -/
def secondFile (content : FileNode) : List (List String × FileNode) :=
  [(["p.q"], .directory), (["p.q", "A.java"], content)]

/-- Both files. The first one comes first in the order of components, so it is the node's. -/
def twinFiles : List (List String × FileNode) :=
  [(["p"], .directory), (["p", "q"], .directory), (["p", "q", "A.java"], targetFile.2)] ++
    secondFile targetFile.2

/-- Syncs to a commit that deletes the first file, and may have changed others. -/
def deleting (changed : List String) : SyncEngine Unit :=
  { follower with
    versionControl :=
      ⟨fun _ => pure "c2", fun _ _ new => pure ⟨new, changed, ["p/q/A.java"], false⟩⟩ }

/-- What an analysis of both files and a sync after the deletion of the first one come to. -/
structure Relocation where
  /-- What the sync finds out: failed extractions and the differences. -/
  failures : List String
  diff : Diff
  status : SyncStatus
  unchanged : List String
  /-- The published nodes and the records, each with its source file. -/
  nodes : List (String × String)
  records : List (String × String)
  deriving DecidableEq

/-- The records of the sample project with their source files. -/
def filedRecords (w : Workspace Unit) : List (String × String) :=
  (w.records.store.findByProject project.id).map fun c => (c.identifier, c.sourceFile)

def relocation (changed : List String) (content : FileNode) : Option Relocation :=
  match analyzedAt twinFiles with
  | (.ok a, w) =>
    let v := pulled w (secondFile content)
    match ((deleting changed).inquire a.summary.state).run (SyncEngine.held a.summary.state v),
      ((deleting changed).sync a.summary.state).run v with
    | (.ok i, _), (.ok r, w') =>
      (w'.registry.get? project.id).map fun g =>
        ⟨Extraction.failures i.extractions, i.diff, r.status, r.plan.unchanged, g.nodes.toList,
          filedRecords w'⟩
    | _, _ => none
  | _ => none

/-- The runs behind such an outcome. -/
theorem exists_relocation {changed : List String} {content : FileNode} {o : Relocation}
    (h : relocation changed content = some o) :
    ∃ a w r w' g i v₁, analyzedAt twinFiles = (.ok a, w) ∧
      ((deleting changed).sync a.summary.state).run (pulled w (secondFile content)) =
        (.ok r, w') ∧
      ((deleting changed).inquire a.summary.state).run
        (SyncEngine.held a.summary.state (pulled w (secondFile content))) = (.ok i, v₁) ∧
      w'.registry.get? project.id = some g ∧ o.failures = Extraction.failures i.extractions ∧
      o.diff = i.diff ∧ o.status = r.status ∧ o.unchanged = r.plan.unchanged ∧
      o.nodes = g.nodes.toList ∧ o.records = filedRecords w' := by
  unfold relocation at h
  split at h
  · next a w ha =>
    dsimp only at h
    split at h
    · next i v₁ r w' hi hr =>
      obtain ⟨g, hg, rfl⟩ := Option.map_eq_some_iff.1 h
      exact ⟨a, w, r, w', g, i, v₁, ha, hr, hi, hg, rfl, rfl, rfl, rfl, rfl, rfl⟩
    · cases h
  · cases h

/-- The source files of a graph with one node. -/
theorem sourceFile?_of_single {g : Graph} {id file : String} (h : [(id, file)] = g.nodes.toList)
    (j : String) : g.sourceFile? j = if id = j then some file else none := by
  change Dict.lookup j g.nodes.toList = _
  rw [← h]
  rfl

theorem deleting_discreet (changed : List String) : (deleting changed).collaborators.Discreet where
  versionControl v hv := by
    cases hv
    exact ⟨fun _ => Run.discreet_pure _, fun _ _ _ => Run.discreet_pure _⟩
  enricher e he := by cases he
  persist save hsave := by cases hsave

theorem deleting_still (changed : List String) : (deleting changed).versionControl.Still :=
  ⟨fun _ => .pure _, fun _ _ _ => .pure _⟩

end Sample

open Sample

/-- The first file is deleted and the second one edited. The differences list the file to which
the unit has moved, so its record gets that file. -/
theorem Ledger.Reachable.files_after_sync_of_sample :
    ∃ a w r w' g, analyzedAt twinFiles = (.ok a, w) ∧
      ((deleting ["p.q/A.java"]).sync a.summary.state).run (pulled w (secondFile grownFile.2)) =
        (.ok r, w') ∧
      w'.registry.get? project.id = some g ∧ filedRecords w' = [("p.q.A", "p.q/A.java")] ∧
      ∀ c ∈ w'.records.store.findByProject project.id,
        g.sourceFile? c.identifier = some c.sourceFile := by
  have houtcome : relocation ["p.q/A.java"] grownFile.2 = some ⟨[],
      ⟨"c2", ["p.q/A.java"], ["p/q/A.java"], false⟩, .completed, [], [("p.q.A", "p.q/A.java")],
      [("p.q.A", "p.q/A.java")]⟩ := by
    decide +kernel
  obtain ⟨a, w, r, w', g, i, v₁, ha, hr, hi, hg, hok, hdiff, hdone, -, hnodes, hrecords⟩ :=
    exists_relocation houtcome
  have hkeeper : keeper.Discreet := (plain_of_commitAt "c1").discreet
  have hadvances := FreshAnalysis.records_runWith hkeeper root project none tools
    (w := workspace twinFiles) Ledger.Reachable.start.sound
  have hrun : (FreshAnalysis.runWith keeper (Path.ofText project.repoPath) project none tools).run
    (workspace twinFiles) = (.ok a, w) := ha
  rw [show root = Path.ofText project.repoPath from rfl, hrun] at hadvances
  have hnamed : (workspace (secondFile grownFile.2)).files.Named := by decide +kernel
  have hrecorded : (workspace twinFiles).records = Ledger.start.records := rfl
  have hbetween : StoreAccess.Advances "q" w.records
    (pulled w (secondFile grownFile.2)).records := .refl hadvances.sound
  obtain ⟨g', i', v₂, hg', hi', -, hiff⟩ := Ledger.Reachable.start.files_after_sync
    hkeeper hrecorded hrun (by decide) hbetween (deleting_discreet _)
    (deleting_still _) hnamed hr hdone.symm
  obtain rfl : g = g' := Option.some.inj (hg.symm.trans hg')
  obtain rfl : i = i' := Except.ok.inj (Prod.mk.inj (hi.symm.trans hi')).1
  refine ⟨a, w, r, w', g, ha, hr, hg, hrecords.symm, (hiff hok.symm).2 fun id hmoved => ?_⟩
  obtain ⟨file, hfile⟩ := Dict.exists_get?_of_contains hmoved.2.1
  have hsingle := sourceFile?_of_single hnodes id
  refine Or.inr ⟨"p.q/A.java", ?_, ?_⟩
  · rw [← hdiff]
    exact List.mem_singleton_self _
  · by_cases hid : "p.q.A" = id
    · rw [hsingle, if_pos hid]
    · rw [if_neg hid] at hsingle
      cases hfile.symm.trans hsingle

/-- The first file is deleted and nothing else. The record of the unit, which is the second file
now, keeps the file that is gone, and it is reported as unchanged. -/
theorem SyncEngine.file_stale_of_deletion :
    ∃ a w r w' g i v₁, analyzedAt twinFiles = (.ok a, w) ∧
      ((deleting []).sync a.summary.state).run (pulled w (secondFile targetFile.2)) = (.ok r, w') ∧
      r.status = .completed ∧
      ((deleting []).inquire a.summary.state).run
        (held a.summary.state (pulled w (secondFile targetFile.2))) = (.ok i, v₁) ∧
      Extraction.failures i.extractions = [] ∧ i.diff = ⟨"c2", [], ["p/q/A.java"], false⟩ ∧
      w'.registry.get? project.id = some g ∧ r.plan.unchanged = ["p.q.A"] ∧
      g.nodes.toList = [("p.q.A", "p.q/A.java")] ∧ filedRecords w' = [("p.q.A", "p/q/A.java")] ∧
      ¬∀ c ∈ w'.records.store.findByProject project.id,
        g.sourceFile? c.identifier = some c.sourceFile := by
  have houtcome : relocation [] targetFile.2 = some ⟨[], ⟨"c2", [], ["p/q/A.java"], false⟩,
      .completed, ["p.q.A"], [("p.q.A", "p.q/A.java")], [("p.q.A", "p/q/A.java")]⟩ := by
    decide +kernel
  obtain ⟨a, w, r, w', g, i, v₁, ha, hr, hi, hg, hok, hdiff, hdone, hunchanged, hnodes, hrecords⟩ :=
    exists_relocation houtcome
  refine ⟨a, w, r, w', g, i, v₁, ha, hr, hdone.symm, hi, hok.symm, hdiff.symm, hg, hunchanged.symm,
    hnodes.symm, hrecords.symm, fun hall => ?_⟩
  have hlisted : ("p.q.A", "p/q/A.java") ∈ filedRecords w' := by
    rw [← hrecords]
    exact List.mem_singleton_self _
  obtain ⟨c, hc, heq⟩ := List.mem_map.1 hlisted
  obtain ⟨hid, hfile⟩ := Prod.mk.inj heq
  have hfiled := hall c hc
  rw [hid, hfile, sourceFile?_of_single hnodes] at hfiled
  revert hfiled
  decide

end CodeAtlas
