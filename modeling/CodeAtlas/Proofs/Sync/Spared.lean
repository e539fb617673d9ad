import CodeAtlas.Proofs.Run.Atomic
import CodeAtlas.Proofs.Run.Distinct
import CodeAtlas.Proofs.Sync.Inquiry

/-!
# Failed extractions

When the extraction of a stored unit fails, the graph that its sync has built has lost what was
known about it, while other units are deleted, updated and enriched. This file proves that such a
failure destroys nothing: the unit keeps all that is stored about it but the links to deleted
ones, its node is as the store describes it, and the enricher is not asked about it.
-/

namespace CodeAtlas

open RecordStore

/-! ## Nodes as they are stored -/

namespace RecordStore

/-- The ids of a project's classes that bear certain identifiers. -/
def idsOf (s : RecordStore) (p : String) (identifiers : List String) : List String :=
  ((s.findByProject p).filter fun r => r.identifier ∈ identifiers).map (·.id)

/-- The link that a stored link describes: it leads to the unit whose class is stored under the
target's id. -/
def link? (s : RecordStore) (l : LinkRecord) : Option ParameterLink :=
  (s.getClass? l.targetId).map fun target => ⟨l.methodName, l.position, target.identifier⟩

end RecordStore

/-- A node that is as the rows about its class describe it. -/
structure Graph.NodeRecalled (g : Graph) (s : RecordStore) (r : ClassRecord) : Prop where
  tied : g.classId? r.identifier = some r.id
  kind : g.kind r.identifier = r.kind
  description : g.description? r.identifier = r.description
  methods : g.methodsOf r.identifier = (s.methodsFor r.id).map MethodRecord.method
  /-- Every stored link describes one, and these by method are the node's. -/
  links : ∃ ls, (s.linksFor r.id).map s.link? = ls.map some ∧
    g.linksOf r.identifier = Graph.regroup .empty ls

namespace SyncEngine

variable {σ : Type} {w w' : Workspace σ} {p head : String} {t : Staged} {a : StoreAccess}

/-! ## Enrichers that are not asked -/

/-- The engine with an enricher that does something else whenever it is asked about a certain
unit. -/
def trapped (e : SyncEngine σ) (id : String) (trap : Enricher σ) : SyncEngine σ :=
  { e with enricher := e.enricher.map fun x => x.trapped id trap }

/-- What an enricher would say about a node makes no difference to a commit that has not staged
the node. -/
theorem commit_trapped (e : SyncEngine σ) {id : String} (trap : Enricher σ)
    (state : ProjectState) (h : id ∉ t.identifiers) :
    (e.trapped id trap).commit state head t = e.commit state head t := by
  unfold commit
  refine bind_congr fun _ => ?_
  have henrich : (e.trapped id trap).enrichStaged (Path.ofText state.repoPath) t.examiner
      (t.updated ++ t.added) t.graph =
      e.enrichStaged (Path.ofText state.repoPath) t.examiner (t.updated ++ t.added) t.graph := by
    unfold enrichStaged trapped
    cases e.enricher with
    | none => rfl
    | some enricher =>
      dsimp only [Option.map_some]
      split
      · rfl
      · exact Graph.enrich_trapped t.graph enricher trap _ _ h
  rw [henrich]
  rfl

/-- Nor to a sync. -/
theorem sync_trapped (e : SyncEngine σ) {id : String} (trap : Enricher σ) {state : ProjectState}
    (h : ∀ head w₁ t w₂,
      (e.versionControl.head (Path.ofText state.repoPath)).run (held state w) = (.ok head, w₁) →
      (e.stage state head).run w₁ = (.ok t, w₂) → id ∉ t.identifiers) :
    ((e.trapped id trap).sync state).run w = (e.sync state).run w := by
  have hattempt : ((e.trapped id trap).attemptSync state).run (held state w) =
      (e.attemptSync state).run (held state w) := by
    have hcontrol : (e.trapped id trap).versionControl = e.versionControl := rfl
    unfold attemptSync
    rw [hcontrol, Fallible.run_bind, Fallible.run_bind]
    cases hhead : (e.versionControl.head (Path.ofText state.repoPath)).run (held state w) with
    | mk o w₁ =>
      cases o with
      | error f => rfl
      | ok head =>
        dsimp only
        split
        · rfl
        · unfold advance
          rw [Fallible.run_bind, Fallible.run_bind]
          have hsame : (e.trapped id trap).stage state head = e.stage state head := rfl
          rw [hsame]
          cases hstage : (e.stage state head).run w₁ with
          | mk o w₂ =>
            cases o with
            | error f => rfl
            | ok t =>
              dsimp only
              rw [commit_trapped e trap state (h head w₁ t w₂ hhead hstage)]
  rw [sync_eq, sync_eq, hattempt]
  rfl

/-! ## Unchanged nodes -/

section Unchanged

variable (ht : t.Fits a p head)
include ht

/-- A staged node is tied to the record that is staged for it. -/
theorem Staged.Fits.tied_staged {r : ClassRecord} (hr : r ∈ t.updated ++ t.added) :
    t.graph.classId? r.identifier = some r.id := by
  have hlabelled := ht.labelledFrom
  rcases List.mem_append.1 hr with hr | hr
  · obtain ⟨-, hback, -⟩ := ht.updated_restates
    obtain ⟨old, hold, hrestates⟩ := hback r hr
    obtain ⟨hfound, hid⟩ := (mem_updatedRecords ht.draft).1 hold
    rw [hrestates.identifier, hrestates.id]
    exact (hlabelled.updated old hfound hid).classId
  · exact hlabelled.tied r hr

variable (h : a.store.Distinct p) (hs : a.store.Consistent) (hfresh : a.Fresh)
  {r : ClassRecord} (hr : r ∈ a.store.findByProject p)
  (hid : r.identifier ∈ t.draft.plan.unchanged)
include h hs hr hid

/-- The record of an unchanged node is not deleted. -/
theorem Staged.Fits.not_mem_deletedIds_of_unchanged : r.id ∉ deletedIds t.draft := by
  rw [ht.draft.mem_deletedIds hs h hr]
  exact fun hgone => ((ht.draft.plan.deleted _).1 hgone).2
    ((ht.draft.plan.kept _).1 (Or.inr hid)).1

include hfresh

/-- Nor is it staged. -/
theorem Staged.Fits.not_staged_of_unchanged : r.id ∉ (t.updated ++ t.added).map (·.id) :=
  (ht.unstaged_iff h hs hfresh hr (ht.not_mem_deletedIds_of_unchanged h hs hr hid)).2 hid

theorem Staged.Fits.not_mem_identifiers_of_unchanged : r.identifier ∉ t.identifiers := by
  intro hmem
  obtain ⟨x, hx, heq⟩ := List.mem_map.1 hmem
  have htied := ht.tied_staged hx
  rw [heq, (ht.labelledFrom.unchanged r (ht.draft.finds h hr) hid).classId] at htied
  exact ht.not_staged_of_unchanged h hs hfresh hr hid
    (List.mem_map.2 ⟨x, hx, (Option.some.inj htied).symm⟩)

/-- No staged node is tied to the class of an unchanged one. -/
theorem Staged.Fits.not_tiedTo_of_unchanged :
    ¬∃ id ∈ t.identifiers, t.graph.TiedTo id r.id := by
  rintro ⟨id, hmem, htied⟩
  obtain ⟨x, hx, rfl⟩ := List.mem_map.1 hmem
  have hown := ht.tied_staged hx
  rw [show t.graph.classId? x.identifier = some r.id from htied] at hown
  exact ht.not_staged_of_unchanged h hs hfresh hr hid
    (List.mem_map.2 ⟨x, hx, (Option.some.inj hown).symm⟩)

/-- Writing leaves the record of an unchanged node and its methods as they are, and takes the
links to deleted records only. -/
theorem Staged.Fits.written_of_unchanged :
    (t.written a.store).getClass? r.id = some r ∧
      (t.written a.store).methodsFor r.id = a.store.methodsFor r.id ∧
      (t.written a.store).linksFor r.id =
        (a.store.linksFor r.id).filter fun l => l.targetId ∉ deletedIds t.draft := by
  have hkept := ht.not_mem_deletedIds_of_unchanged h hs hr hid
  have hout := ht.not_staged_of_unchanged h hs hfresh hr hid
  have hnotUpdated : r.id ∉ t.updated.map (·.id) := fun hmem =>
    hout (List.map_append ▸ List.mem_append_left _ hmem)
  have hnolinks : (FreshAnalysis.allLinks t.graph (t.updated ++ t.added)).filter
      (fun l => l.classId = r.id) = [] := by
    rw [List.filter_eq_nil_iff]
    intro l hl heq
    obtain ⟨x, hx, hl⟩ := List.mem_flatMap.1 hl
    rw [decide_eq_true_eq, Graph.classId_of_mem_linkRecords (ht.tied_staged hx) hl] at heq
    exact hout (heq ▸ List.mem_map_of_mem hx)
  unfold Staged.written
  refine ⟨?_, ?_, ?_⟩
  · rw [getClass?_withStaged, getClass?_saveClasses_of_not_mem hout]
    change (a.store.deleteClasses (deletedIds t.draft)).getClass? r.id = some r
    rw [getClass?_deleteClasses, if_neg hkept]
    exact ((mem_findByProject hs).1 hr).1
  · rw [methodsFor_eq_values, rowsOf_withStaged, ht.methods,
      filter_allRowsFrom_of_not_mem _ _ hout]
    unfold clearedStore
    rw [rowsOf_deleteMethodsAndLinks, if_neg hnotUpdated, rowsOf_deleteClasses, if_neg hkept]
    rfl
  · rw [linksFor_withStaged, hnolinks]
    unfold clearedStore
    rw [linksFor_deleteMethodsAndLinks, if_neg hnotUpdated, linksFor_deleteClasses, if_neg hkept]
    refine List.filter_congr fun l _ => ?_
    simp

end Unchanged

/-- Deleted are the records of a project that bear deleted identifiers. -/
theorem Draft.Fits.mem_deletedIds_iff {d : Draft} (hd : d.Fits a.store p)
    (hs : a.store.Consistent) (h : a.store.Distinct p) {c : String} :
    c ∈ deletedIds d ↔ c ∈ a.store.idsOf p d.plan.deleted := by
  constructor
  · intro hc
    obtain ⟨r, hr, rfl⟩ := List.mem_map.1 hc
    obtain ⟨id, hid, hget⟩ := List.mem_filterMap.1 hr
    rw [hd.records] at hget
    obtain ⟨hmem, rfl⟩ := get?_recordsByIdentifier hget
    exact List.mem_map.2 ⟨r, List.mem_filter.2 ⟨hmem, decide_eq_true hid⟩, rfl⟩
  · intro hc
    obtain ⟨r, hr, rfl⟩ := List.mem_map.1 hc
    obtain ⟨hmem, hid⟩ := List.mem_filter.1 hr
    exact (hd.mem_deletedIds hs h hmem).2 (of_decide_eq_true hid)

/-- The class of a unit that is not deleted is stored, as the same unit, when all is written. -/
theorem Staged.Fits.exists_written (ht : t.Fits a p head) (h : a.store.Distinct p)
    (hs : a.store.Consistent) (hfresh : a.Fresh) {r : ClassRecord}
    (hr : r ∈ a.store.findByProject p) (hout : r.id ∉ deletedIds t.draft) :
    ∃ r', (t.written a.store).getClass? r.id = some r' ∧ r'.identifier = r.identifier := by
  have hget := ((mem_findByProject hs).1 hr).1
  have hcleared : (clearedStore t a.store).getClass? r.id = some r := by
    change (a.store.deleteClasses (deletedIds t.draft)).getClass? r.id = some r
    rw [getClass?_deleteClasses, if_neg hout, hget]
  have hkept := Patched.saveClasses (consistent_clearedStore hs t) (ht.restates_updated hs h)
  obtain ⟨r', hr', -, hidentifier⟩ := exists_getClass?_of_units hkept.units hcleared
  refine ⟨r', ?_, hidentifier⟩
  have hnotAdded : r.id ∉ t.added.map (·.id) := by
    intro hmem
    rw [ht.getClass?_of_mem_added hfresh hmem] at hget
    cases hget
  unfold Staged.written
  rw [getClass?_withStaged, show (clearedStore t a.store).saveClasses (t.updated ++ t.added) =
        ((clearedStore t a.store).saveClasses t.updated).saveClasses t.added from
      List.foldl_append ..,
    getClass?_saveClasses_of_not_mem hnotAdded, hr']

/-- What is found among elements is all that is described by those of them that are kept. -/
theorem map_filter_eq_filterMap {α β : Type} {f describe : α → Option β} {keep : α → Bool}
    {xs : List α}
    (hkeep : ∀ x ∈ xs, keep x = true → ∃ y, f x = some y ∧ describe x = some y)
    (hdrop : ∀ x ∈ xs, ¬keep x = true → f x = none) :
    (xs.filter keep).map describe = (xs.filterMap f).map some := by
  induction xs with
  | nil => rfl
  | cons x rest ih =>
    have hrest := ih (fun y hy => hkeep y (List.mem_cons_of_mem _ hy))
      fun y hy => hdrop y (List.mem_cons_of_mem _ hy)
    by_cases hx : keep x = true
    · obtain ⟨y, hfound, hdescribed⟩ := hkeep x (List.mem_cons_self ..) hx
      rw [List.filter_cons_of_pos hx, List.filterMap_cons_some hfound, List.map_cons,
        List.map_cons, hdescribed, hrest]
    · rw [List.filter_cons_of_neg hx,
        List.filterMap_cons_none (hdrop x (List.mem_cons_self ..) hx), hrest]

/-! ## Whole syncs -/

/-- What a class keeps in a sync that has failed to extract its unit. -/
structure Spared (e : SyncEngine σ) (state : ProjectState) (w w' : Workspace σ) (r : SyncResult)
    (g : Graph) (c : ClassRecord) : Prop where
  reported : c.identifier ∈ r.plan.unchanged
  record : w'.records.store.getClass? c.id = some c
  methods : w'.records.store.methodsFor c.id = w.records.store.methodsFor c.id
  /-- Gone are the links to classes that the sync has deleted, and no others. -/
  links : w'.records.store.linksFor c.id = (w.records.store.linksFor c.id).filter fun l =>
    l.targetId ∉ w.records.store.idsOf state.id r.plan.deleted
  /-- Whatever the enricher would do if it were asked about the unit, the sync is the same. -/
  unasked : ∀ trap, ((e.trapped c.identifier trap).sync state).run w = (.ok r, w')
  recalled : g.NodeRecalled w'.records.store c

section Written

variable (ht : t.Fits a p head) (h : a.store.Distinct p) (ha : a.Sound) {g : Graph}
  {s : RecordStore} (hwritten : Graph.WrittenBack t.identifiers t.graph (t.written a.store) g s)
include ht h ha hwritten

/-- A link to a class that is kept leads to its node, and that is what the stored link
describes. -/
theorem Staged.Fits.link_of_kept {d : ClassRecord} (hd : d ∈ a.store.findByProject p)
    (hout : d.id ∉ deletedIds t.draft) {l : LinkRecord} (htarget : d.id = l.targetId) :
    g.foundLink? t.draft.names l = some ⟨l.methodName, l.position, d.identifier⟩ ∧
      s.link? l = some ⟨l.methodName, l.position, d.identifier⟩ := by
  have hs := ha.consistent
  obtain ⟨d₁, hget₁, hidentifier₁⟩ := ht.exists_written h hs ha.fresh hd hout
  obtain ⟨d₂, hget₂, -, hidentifier₂⟩ := exists_getClass?_of_units hwritten.patched.units hget₁
  have hnode : g.contains d.identifier = true := by
    rw [Graph.contains_congr hwritten.nodes]
    rcases ht.target_cases h hs hd with hstays | hgone
    · exact hstays.1
    · exact absurd hgone.2 hout
  constructor
  · unfold Graph.foundLink?
    rw [← htarget, ht.draft.get?_names h hs d hd, Option.bind_some, if_pos hnode]
  · unfold RecordStore.link?
    rw [← htarget, hget₂, Option.map_some, hidentifier₂, hidentifier₁]

/-- A link to a class that is deleted leads nowhere. -/
theorem Staged.Fits.foundLink?_of_deleted {d : ClassRecord} (hd : d ∈ a.store.findByProject p)
    (hgone : d.id ∈ deletedIds t.draft) {l : LinkRecord} (htarget : d.id = l.targetId) :
    g.foundLink? t.draft.names l = none := by
  have hs := ha.consistent
  have hnode : ¬g.contains d.identifier = true := by
    rw [Graph.contains_congr hwritten.nodes]
    rcases ht.target_cases h hs hd with hstays | hdeleted
    · exact absurd hgone hstays.2.2
    · exact hdeleted.1
  unfold Graph.foundLink?
  rw [← htarget, ht.draft.get?_names h hs d hd, Option.bind_some, if_neg hnode]

/-- The node of an unchanged class is in the committed graph as its rows describe it. -/
theorem Staged.Fits.nodeRecalled {r : ClassRecord} (hr : r ∈ a.store.findByProject p)
    (hid : r.identifier ∈ t.draft.plan.unchanged) : g.NodeRecalled s r := by
  have hs := ha.consistent
  have hfresh := ha.fresh
  have hsame := hwritten.same _ (ht.not_mem_identifiers_of_unchanged h hs hfresh hr hid)
  have hrestored := (ht.labelledFrom.unchanged r (ht.draft.finds h hr) hid).congr hsame
  obtain ⟨-, hmethods, hlinks⟩ := ht.written_of_unchanged h hs hfresh hr hid
  refine ⟨hrestored.classId, ?_, ?_, ?_, _, ?_, hrestored.links⟩
  · exact Graph.kind_of_nodeInfo? hrestored.info
  · exact Graph.description?_of_nodeInfo? hrestored.info
  · rw [hrestored.methods, hwritten.patched.methods _
      (ht.not_tiedTo_of_unchanged h hs hfresh hr hid), hmethods]
  · -- links lead to classes of the project, which are deleted exactly if their nodes are gone
    have htarget (l : LinkRecord) (hl : l ∈ a.store.linksFor r.id) :
        ∃ d ∈ a.store.findByProject p, d.id = l.targetId := by
      obtain ⟨q, howner, htarget⟩ := ha.inside r.id l hl
      obtain rfl := howner.unique (Cleared.owns_of_mem hs hr)
      exact (owns_iff_exists_mem hs).1 htarget
    rw [hwritten.patched.links, hlinks]
    refine map_filter_eq_filterMap (fun l hl hkeep => ?_) fun l hl hdrop => ?_
    · obtain ⟨d, hd, heq⟩ := htarget l hl
      have hout : d.id ∉ deletedIds t.draft := heq ▸ of_decide_eq_true hkeep
      exact ⟨_, ht.link_of_kept h ha hwritten hd hout heq⟩
    · obtain ⟨d, hd, heq⟩ := htarget l hl
      have hgone : d.id ∈ deletedIds t.draft := by
        rw [heq]
        simpa using hdrop
      exact ht.foundLink?_of_deleted h ha hwritten hd hgone heq

end Written

end SyncEngine

/-- A failed extraction destroys nothing. Whatever runs of whatever projects have been there
before, and whatever else a completed sync deletes, updates and enriches: a class whose unit is
still there, but could not be extracted, is reported as unchanged and keeps its record, its
methods and its links to classes that are not deleted; the enricher is not asked about it; and
its node in the published graph is as these rows describe it. -/
theorem Ledger.Reachable.failed_extractions_spared {l : Ledger} (hl : l.Reachable) {σ : Type}
    {e : SyncEngine σ} (he : e.collaborators.Discreet) {state : ProjectState}
    {w w' : Workspace σ} (hw : w.records = l.records) {r : SyncResult}
    (hrun : (e.sync state).run w = (.ok r, w')) (hdone : r.status = .completed) :
    ∃ g q w₁, w'.registry.get? state.id = some g ∧
      (e.inquire state).run (SyncEngine.held state w) = (.ok q, w₁) ∧
      ∀ c ∈ w.records.store.findByProject state.id, g.contains c.identifier = true →
        (∃ x ∈ q.extractions, x.unit.identifier = c.identifier ∧ x.Raised) →
        SyncEngine.Spared e state w w' r g c := by
  have ha : w.records.Sound := hw ▸ hl.sound
  have hs := ha.consistent
  have hdistinct : w.records.store.Distinct state.id := hw ▸ hl.distinct state.id
  obtain ⟨head, w₁, t, w₂, g, counts, advanced, w₃, hhead, -, hstage, hcommit, heq, rfl⟩ :=
    SyncEngine.sync_completed hrun hdone
  have hkept : w₁.records = w.records := (SyncEngine.head_eq he hhead).1
  obtain ⟨q, w₄, hinquired, hq, hfits, -⟩ := SyncEngine.stage_inquired he hhead hstage
  obtain ⟨ht, hrecords, -⟩ := SyncEngine.stage_eq_ok he hstage
  rw [hkept] at ht hrecords
  have hstore : w₂.records.store = w.records.store := by rw [hrecords]
  have hwritten := SyncEngine.commit_writtenBack he (hstore ▸ hs) hcommit
  rw [hstore] at hwritten
  refine ⟨g, q, w₄, (Registry.get?_put ..).trans (if_pos rfl), hinquired,
    fun c hc hnode hraised => ?_⟩
  have hplan : r.plan = t.draft.plan := by rw [heq]
  have hid : c.identifier ∈ t.draft.plan.unchanged := by
    have hnotUpdated : c.identifier ∉ t.draft.plan.updated := by
      rw [hq.draft]
      intro hupdated
      exact ((SyncEngine.mem_updated_demoteFailed _ hfits.plan.fits.updated_nodup).1 hupdated).2
        (Extraction.mem_failures.2 hraised)
    refine ((ht.draft.plan.kept _).2 ⟨?_, ?_⟩).resolve_left hnotUpdated
    · rwa [← Graph.contains_congr (hwritten.nodes.trans ht.nodes)]
    · rw [ht.draft.records, SyncEngine.mem_keys_recordsByIdentifier]
      exact ⟨c, hc, rfl⟩
  obtain ⟨hclass, hmethods, hlinks⟩ := ht.written_of_unchanged hdistinct hs ha.fresh hc hid
  have hother := ht.not_tiedTo_of_unchanged hdistinct hs ha.fresh hc hid
  refine ⟨hplan ▸ hid, ?_, ?_, ?_, fun trap => ?_, ht.nodeRecalled hdistinct ha hwritten hc hid⟩
  · exact (hwritten.patched.classes _ hother).trans hclass
  · exact (hwritten.patched.methods _ hother).trans hmethods
  · refine ((hwritten.patched.links _).trans hlinks).trans (List.filter_congr fun l _ => ?_)
    rw [hplan, decide_eq_decide, ht.draft.mem_deletedIds_iff hs hdistinct]
  · rw [e.sync_trapped trap fun head' w₁' t' w₂' hhead' hstage' => ?_, hrun]
    rw [hhead] at hhead'
    cases hhead'
    rw [hstage] at hstage'
    cases hstage'
    exact ht.not_mem_identifiers_of_unchanged hdistinct hs ha.fresh hc hid

/-! ## A file that is broken -/

namespace Sample

/-- Syncs of everything, with an enricher that never answers. -/
def asking : SyncEngine Unit :=
  { resyncing with enricher := some fun _ => throw (.interrupted "no answer") }

theorem asking_discreet : asking.collaborators.Discreet where
  versionControl := resyncing_discreet.versionControl
  enricher _ he batch := by
    cases he
    exact Run.discreet_throw _
  persist := resyncing_discreet.persist

/-- The analyzed workspace after the file of the class with the method was broken. -/
def damaged : Workspace Unit :=
  { analyzed with files := (workspace [targetFile, brokenFile]).files }

end Sample

open Sample in
/-- The broken class keeps its record, its method and the link to the other class, which is
examined again, stays where it is, and is asked about. -/
theorem Ledger.Reachable.failed_extractions_spared_of_sample :
    ∃ r w' g c, (asking.sync project).run damaged = (.ok r, w') ∧
      r.plan = ⟨[], ["A"], [], ["B"]⟩ ∧ r.counts = ⟨0, 1⟩ ∧
      w'.registry.get? project.id = some g ∧ c.identifier = "B" ∧
      SyncEngine.Spared asking project damaged w' r g c ∧
      w'.records.store.linksFor c.id =
        [⟨StoreAccess.idOfNumber 2, "m", 0, StoreAccess.idOfNumber 1⟩] := by
  have hreach : ledger.Reachable := .step .start step_ledger
  have hrecords : damaged.records = ledger.records := records_ledger
  have hstored : (damaged.records.store.findByProject project.id).map
      (fun r => (r.id, r.identifier)) =
        [(StoreAccess.idOfNumber 1, "A"), (StoreAccess.idOfNumber 2, "B")] := by
    decide +kernel
  have hfailures : (((asking.inquire project).run (SyncEngine.held project damaged)).1.toOption.map
      fun q => Extraction.failures q.extractions) = some ["B"] := by
    decide +kernel
  have hresult : (((asking.sync project).run damaged).1.toOption.map
      fun r => (r.status, r.plan, r.counts)) =
        some (.completed, ⟨[], ["A"], [], ["B"]⟩, ⟨0, 1⟩) := by
    decide +kernel
  have hleft : ((((asking.sync project).run damaged).2.registry.get? project.id).map
        (·.contains "B"),
      ((asking.sync project).run damaged).2.records.store.linksFor (StoreAccess.idOfNumber 2)) =
        (some true, [⟨StoreAccess.idOfNumber 2, "m", 0, StoreAccess.idOfNumber 1⟩]) := by
    decide +kernel
  obtain ⟨c, hc, heq⟩ : ∃ c ∈ damaged.records.store.findByProject project.id,
      (c.id, c.identifier) = (StoreAccess.idOfNumber 2, "B") := by
    rw [← List.mem_map, hstored]
    simp
  obtain ⟨hid, hidentifier⟩ := Prod.mk.inj heq
  obtain ⟨r, w', hrun, hresult⟩ := Fallible.exists_eq_ok hresult
  obtain ⟨hdone, hresult⟩ := Prod.mk.inj hresult
  obtain ⟨hplan, hcounts⟩ := Prod.mk.inj hresult
  rw [hrun] at hleft
  obtain ⟨hnode, hlinks⟩ := Prod.mk.inj hleft
  obtain ⟨g, q, w₁, hpublished, hinquired, hspared⟩ :=
    hreach.failed_extractions_spared asking_discreet hrecords hrun hdone
  rw [hpublished] at hnode
  rw [hinquired] at hfailures
  have hall : Extraction.failures q.extractions = ["B"] := Option.some.inj hfailures
  have hfailed : "B" ∈ Extraction.failures q.extractions := by
    rw [hall]
    exact List.mem_singleton_self _
  refine ⟨r, w', g, c, hrun, hplan, hcounts, hpublished, hidentifier, hspared c hc ?_ ?_, ?_⟩
  · rw [hidentifier]
    exact Option.some.inj hnode
  · rw [hidentifier]
    exact Extraction.mem_failures.1 hfailed
  · rw [hid]
    exact hlinks

end CodeAtlas
