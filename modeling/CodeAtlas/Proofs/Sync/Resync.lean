import CodeAtlas.Proofs.Links.Afresh
import CodeAtlas.Proofs.Run.Atomic
import CodeAtlas.Proofs.Sync.Renewed
import CodeAtlas.Proofs.Sync.Whole
import CodeAtlas.Proofs.Sync.Written

/-!
# Syncs of everything and fresh analyses

A fresh analysis replaces all records of a project; a sync of everything keeps those that it can
and brings back their texts. This file proves that both publish the same graph but for these
texts and for the records to which nodes are tied, and that they do exactly the same if nothing
was stored before.
-/

namespace CodeAtlas

open Fallible RecordStore

variable {σ : Type} {w w' v v' : Workspace σ}

/-- Collaborators that keep to themselves, with version control that leaves alone what
examinations see and without an enricher. -/
structure Collaborators.Unobtrusive (c : Collaborators σ) : Prop where
  discreet : c.Discreet
  aside : ∀ vc, c.versionControl = some vc → vc.Aside
  unenriched : c.enricher = none

theorem VersionControl.Aside.still {vc : VersionControl σ} (h : vc.Aside) : vc.Still where
  head repository w := by
    obtain ⟨hfiles, hrest⟩ := Prod.mk.inj (h.head repository w)
    exact Prod.ext hfiles (Prod.mk.inj hrest).1
  diff repository old new w := by
    obtain ⟨hfiles, hrest⟩ := Prod.mk.inj (h.diff repository old new w)
    exact Prod.ext hfiles (Prod.mk.inj hrest).1

theorem Collaborators.Unobtrusive.plain {c : Collaborators σ} (h : c.Unobtrusive) : c.Plain :=
  ⟨h.discreet, fun vc hvc => (h.aside vc hvc).still, h.unenriched⟩

/-! ## Syncs of everything -/

namespace SyncEngine

variable {e : SyncEngine σ} {state : ProjectState} {head : String} {t : Staged} {a : StoreAccess}

/-- What a sync of everything finds out is what a survey with all extractions comes to. -/
theorem inquire_whole (he : e.collaborators.Unobtrusive) (hw : w.files.WellFormed)
    (hlasting : w.vanishing = []) {q : Inquiry} (hrun : (e.inquire state).run w = (.ok q, w'))
    (hfull : q.diff.full = true) :
    FreshAnalysis.examinerFor w.files (Path.ofText state.repoPath) state.language e.tools =
        .ok q.examiner ∧
      ∃ v v' found, Run.sight v = Run.sight w ∧
        (Run.inSession (FreshAnalysis.surveyAll q.examiner (Path.ofText state.repoPath)) :
          Run σ _).run v = (.ok found, v') ∧
        q.outline = .whole w.files (recordsByIdentifier w.records.store state.id) q.diff found.1 ∧
        q.extractions = found.2 := by
  have haside := he.aside e.versionControl rfl
  have hcontrol := he.discreet.versionControl e.versionControl rfl
  obtain ⟨w₁, w₂, hhead, hdiff, hx, hexamined⟩ := inquire_eq_ok hrun
  have hsight : Run.sight w₂ = Run.sight w :=
    ((haside.diff _ _ _).eq hdiff).trans ((haside.head _).eq hhead)
  have hrecords : w₂.records = w.records := by
    rw [((hcontrol.diff _ _ _).eq hdiff).1, ((hcontrol.head _).eq hhead).1]
  obtain ⟨hfiles, hrest⟩ := Prod.mk.inj hsight
  have hvanishing : w₂.vanishing = [] := (Prod.mk.inj hrest).1.trans hlasting
  rw [run_examined_whole hfull (hfiles ▸ hw) hvanishing, run_map] at hexamined
  rw [hfiles] at hx hexamined
  rw [hrecords] at hexamined
  cases hsurveyed : (Run.inSession (FreshAnalysis.surveyAll q.examiner
      (Path.ofText state.repoPath)) : Run σ _).run w₂ with
  | mk o v' =>
    rw [hsurveyed] at hexamined
    cases o with
    | error f => cases hexamined
    | ok found =>
      obtain ⟨ho, hxs⟩ := Prod.mk.inj (Except.ok.inj (Prod.mk.inj hexamined).1)
      exact ⟨hx, w₂, v', found, hsight, hsurveyed, ho.symm, hxs.symm⟩

/-- What a completed sync of everything has done about a survey with its extractions. -/
structure Resynced (e : SyncEngine σ) (state : ProjectState) (w w' : Workspace σ)
    (found : Survey × List Extraction) (r : SyncResult) (head : String) (t : Staged) : Prop where
  commit : r.commit = some head
  fits : t.Fits w.records state.id head
  full : t.diff.full = true
  draft : t.draft = (Outline.whole w.files (recordsByIdentifier w.records.store state.id)
    t.diff found.1).draft found.2
  advanced : r.state = state.advance e.clock (some head) t.graph.toText
  published : w'.registry.get? state.id = some t.graph
  store : w'.records.store = t.written w.records.store

/-- A completed sync of everything has surveyed what was to be seen. -/
theorem sync_resynced (he : e.collaborators.Unobtrusive) (hw : w.files.WellFormed)
    (hlasting : w.vanishing = []) {r : SyncResult} (hrun : (e.sync state).run w = (.ok r, w'))
    (hcompleted : r.status = .completed) (hfull : r.full = true) :
    ∃ x v v' found head t,
      FreshAnalysis.examinerFor w.files (Path.ofText state.repoPath) state.language e.tools =
        .ok x ∧
      Run.sight v = Run.sight w ∧
      (Run.inSession (FreshAnalysis.surveyAll x (Path.ofText state.repoPath)) : Run σ _).run v =
        (.ok found, v') ∧
      Resynced e state w w' found r head t := by
  obtain ⟨head, w₁, t, w₂, g, counts, advanced, w₃, hhead, -, hstage, hcommit, rfl, rfl⟩ :=
    sync_completed hrun hcompleted
  obtain ⟨q, w₄, hinquired, hgoes, -, -⟩ := stage_inquired he.discreet hhead hstage
  obtain ⟨hx, v, v', found, hsight, hsurveyed, houtline, hextractions⟩ :=
    inquire_whole (w := held state w) he hw hlasting hinquired (hgoes.diff ▸ hfull)
  obtain ⟨hfits, hrecords, -⟩ := stage_eq_ok he.discreet hstage
  have hkept : w₁.records = w.records := (head_eq he.discreet hhead).1
  obtain ⟨hresult, hstore⟩ := commit_plain he.plain hcommit
  cases hresult
  rw [hkept] at hfits
  refine ⟨q.examiner, v, v', found, head, t, hx, hsight, hsurveyed, rfl, hfits, hfull, ?_, rfl,
    (Registry.get?_put ..).trans (if_pos rfl), ?_⟩
  · rw [hgoes.draft, houtline, hextractions, hgoes.diff]
    rfl
  · change w₃.records.store = _
    rw [hstore, hrecords, hkept]

section Resynced

variable {found : Survey × List Extraction} {r : SyncResult}

theorem Resynced.graph_eq (h : Resynced e state w w' found r head t) :
    t.draft.graph = found.1.graph.describedBy found.2 := by
  rw [h.draft]
  rfl

/-- If no extraction failed, the plan is the one made before the extractions. -/
theorem Resynced.plan_eq (h : Resynced e state w w' found r head t)
    (hok : Extraction.failures found.2 = []) :
    t.draft.plan = .ofGraph (recordsByIdentifier w.records.store state.id).keys found.1.graph
      t.diff.changed true := by
  rw [h.draft]
  unfold Outline.draft
  dsimp only
  rw [hok, demoteFailed_nil, ← h.full]
  rfl

/-- If no extraction failed, the published graph is the described one, renewed. -/
theorem Resynced.renewedFrom (h : Resynced e state w w' found r head t)
    (hok : Extraction.failures found.2 = []) {x : Examiner} {files : FileTree} {repository : Path}
    (hsurveyed : FreshAnalysis.Surveyed x files repository found) :
    (found.1.graph.describedBy found.2).RenewedFrom w.records.store state.id t.graph := by
  have hsorts := SyncPartition.sorts_ofGraph (recordsByIdentifier w.records.store state.id).keys
    hsurveyed.bare.wellFormed.nodes_nodup t.diff.changed true
  rw [← h.plan_eq hok] at hsorts
  rw [← h.graph_eq]
  refine h.fits.renewedFrom hsorts.unchanged_of_full fun id hid => ?_
  rw [h.graph_eq] at hid ⊢
  exact hsurveyed.classified hok hid

/-- A sync of everything for which no record is found stores what an analysis stores. -/
theorem Resynced.unstored (h : Resynced e state w w' found r head t)
    (hok : Extraction.failures found.2 = []) {x : Examiner} {files : FileTree} {repository : Path}
    (hsurveyed : FreshAnalysis.Surveyed x files repository found)
    (hnone : w.records.store.findByProject state.id = []) {rs : List ClassRecord}
    (hrs : rs = FreshAnalysis.recordsOfAll state.id (some head)
      (found.1.graph.describedBy found.2) w.records.issued) :
    t.graph = (found.1.graph.describedBy found.2).bindAll rs ∧
      w'.records.store = w.records.store.withStaged t.graph rs
        (allRowsFrom t.graph (w.records.issued + rs.length) rs) := by
  have hkeys : (recordsByIdentifier w.records.store state.id).keys = [] := by
    unfold recordsByIdentifier
    rw [hnone]
    rfl
  have hplan : t.draft.plan = ⟨found.1.graph.identifiers, [], [], []⟩ := by
    rw [h.plan_eq hok, hkeys]
    exact SyncPartition.ofGraph_nil ..
  have hretied : retie w.records.store head t.draft = (t.draft.graph, []) := by
    unfold retie
    rw [restoreUnchanged_of_nil (by rw [hplan]), hplan]
    rfl
  have hfiles : addedFiles t.draft t.draft.graph =
      (found.1.graph.describedBy found.2).nodes.toList := by
    unfold addedFiles Graph.sourceFile?
    rw [hplan, h.graph_eq, Graph.nodes_describedBy]
    exact Dict.map_keys_getD hsurveyed.bare.wellFormed.nodes_nodup ""
  have hadded : t.added = rs := by
    rw [h.fits.added, hrs]
    unfold addedRecords FreshAnalysis.recordsOfAll
    rw [hretied, hfiles, h.graph_eq]
  have hupdated : t.updated = [] := by
    rw [h.fits.updated, hretied]
  have hgraph := h.fits.graph
  rw [hretied, hadded, h.graph_eq] at hgraph
  have hlength : t.draft.plan.added.length = rs.length := by
    rw [← h.fits.identifiers_added, hadded, List.length_map]
  refine ⟨hgraph, ?_⟩
  rw [h.store]
  unfold Staged.written clearedStore deletedIds
  rw [h.fits.methods, hupdated, hadded, hlength, hplan]
  simp only [List.filterMap_nil, List.map_nil, List.nil_append, deleteClasses_nil,
    deleteMethodsAndLinks_nil]

end Resynced

/-! ## Syncs that nothing hinders -/

/-- A sync of everything that is about to begin: no other one of the project is under way, and
from the commit that is checked out, which is not the anchor, every file counts as changed. -/
structure ResyncsFully (e : SyncEngine σ) (state : ProjectState) (w : Workspace σ) : Prop where
  idle : state.id ∉ w.syncing
  everything : ∃ head w₁ diff w₂,
    (e.versionControl.head (Path.ofText state.repoPath)).run (held state w) = (.ok head, w₁) ∧
    state.anchor ≠ some head ∧
    (e.versionControl.diff (Path.ofText state.repoPath) state.anchor head).run w₁ =
      (.ok diff, w₂) ∧
    diff.full = true

/-- Whether every state can be kept. -/
def Persists (e : SyncEngine σ) : Prop :=
  ∀ persist, e.persist = some persist → ∀ state, Succeeds (persist state)

theorem exists_writeRecords (hfree : w.records.Unrefused) {d : Draft} {g : Graph}
    {updated added : List ClassRecord} {methods : List MethodRecord}
    (hmethods : ∀ m ∈ methods, ∃ r ∈ updated ++ added, m.classId = r.id) :
    ∃ w', (writeRecords d g updated added methods : Run σ Unit).run w = (.ok (), w') := by
  have hcleared (w : Workspace σ) (hfree : w.records.Unrefused) (ids : List String) :
      ∃ w', (deleteMethodsAndLinks ids : Run σ Unit).run w = (.ok (), w') ∧
        w'.records.Unrefused := by
    unfold deleteMethodsAndLinks
    split
    · exact ⟨w, rfl, hfree⟩
    · obtain ⟨w', hrun, -, hfree'⟩ := Run.exists_write (.deleteMethodsAndLinks ids) hfree rfl
      exact ⟨w', hrun, hfree'⟩
  obtain ⟨w₁, hdeleted, hfree₁⟩ := FreshAnalysis.exists_deleteClasses hfree (deletedIds d)
  obtain ⟨w₂, hcleared, hfree₂⟩ := hcleared w₁ hfree₁ (updated.map (·.id))
  unfold writeRecords
  rw [run_bind_of_ok hdeleted, run_bind_of_ok hcleared]
  exact FreshAnalysis.exists_writeStaged hfree₂ g hmethods

/-- Without an enricher, what was staged can be committed to a store that refuses nothing. -/
theorem exists_commit (he : e.collaborators.Unobtrusive) (hpersist : e.Persists)
    (ht : t.Fits a state.id head) (hfree : w.records.Unrefused) :
    ∃ r w', (e.commit state head t).run w = (.ok r, w') := by
  have hnone : e.enricher = none := he.unenriched
  obtain ⟨w₁, hwritten⟩ : ∃ w₁, (writeRecords t.draft t.graph t.updated t.added t.methods :
      Run σ Unit).run w = (.ok (), w₁) := exists_writeRecords hfree fun m hm => by
    rw [ht.methods] at hm
    exact classId_of_mem_allRowsFrom hm
  have henriched : (e.enrichStaged (Path.ofText state.repoPath) t.examiner (t.updated ++ t.added)
      t.graph).run w₁ = (.ok (t.graph, ⟨0, 0⟩), w₁) := by
    unfold enrichStaged
    rw [hnone]
    rfl
  unfold commit
  rw [run_bind_of_ok hwritten, run_bind_of_ok henriched]
  refine exists_run_bind ?_ fun _ w₂ _ => ⟨_, w₂, rfl⟩
  unfold FreshAnalysis.persistState
  split
  · exact ⟨_, w₁, rfl⟩
  · next persist hsome => exact hpersist persist hsome _ w₁

/-- A sync of everything is completed if nothing hinders it: what is to be seen can be surveyed,
no record is refused, and states can be kept. -/
theorem completed_sync (he : e.collaborators.Unobtrusive) (hw : w.files.WellFormed)
    (hlasting : w.vanishing = []) (hready : e.ResyncsFully state w)
    (hfree : w.records.Unrefused) (hpersist : e.Persists) {x : Examiner}
    (hx : FreshAnalysis.examinerFor w.files (Path.ofText state.repoPath) state.language
      e.tools = .ok x) (hsight : Run.sight v = Run.sight w) {found : Survey × List Extraction}
    (hsurveyed : (Run.inSession (FreshAnalysis.surveyAll x (Path.ofText state.repoPath)) :
      Run σ _).run v = (.ok found, v')) {r : SyncResult}
    (hrun : (e.sync state).run w = (.ok r, w')) : r.status = .completed ∧ r.full = true := by
  have haside := he.aside e.versionControl rfl
  obtain ⟨hidle, head, w₁, diff, w₂, hhead, hanchor, hdiff, hfull⟩ := hready
  have hsight₁ : Run.sight w₁ = Run.sight (held state w) := (haside.head _).eq hhead
  have hsight₂ : Run.sight w₂ = Run.sight w := ((haside.diff _ _ _).eq hdiff).trans hsight₁
  obtain ⟨hfiles, hrest⟩ := Prod.mk.inj hsight₂
  have hvanishing : w₂.vanishing = [] := (Prod.mk.inj hrest).1.trans hlasting
  have hdraft : ∃ d w₃, (draft x (Path.ofText state.repoPath) state.id diff : Run σ Draft).run w₂ =
      (.ok d, w₃) := by
    have hsame := ((Run.seesOnly_inSession (FreshAnalysis.seesOnly_surveyAll x
      (Path.ofText state.repoPath))) v w₂ (hsight.trans hsight₂.symm)).1
    rw [hsurveyed] at hsame
    rw [draft_eq, run_map, run_examined_whole hfull (hfiles ▸ hw) hvanishing, run_map, ← hsame]
    exact ⟨_, _, rfl⟩
  have hstage : ∃ t w₃, (e.stage state head).run w₁ = (.ok t, w₃) ∧ t.diff = diff := by
    obtain ⟨d, w₃, hdraft⟩ := hdraft
    unfold stage
    dsimp only
    rw [run_bind_of_ok hdiff, Run.run_files_bind, hfiles, hx,
      run_bind_of_ok (show (Run.ofOutcome (.ok x) : Run σ Examiner).run w₂ = (.ok x, w₂) from rfl),
      run_bind_of_ok hdraft]
    exact ⟨_, _, rfl, rfl⟩
  obtain ⟨t, w₃, hstage, rfl⟩ := hstage
  obtain ⟨hfits, hrecords, -⟩ := stage_eq_ok he.discreet hstage
  have hfree₃ : w₃.records.Unrefused := by
    rw [hrecords, (head_eq he.discreet hhead).1]
    exact hfree
  obtain ⟨⟨g, counts, advanced⟩, w₄, hcommit⟩ :=
    Run.exists_orRestore t.snapshot (exists_commit he hpersist hfits hfree₃)
  rw [sync_eq, if_neg (by simpa using hidle)] at hrun
  unfold attemptSync advance at hrun
  rw [run_bind_of_ok hhead, if_neg hanchor, run_bind_of_ok hstage, run_bind_of_ok hcommit] at hrun
  cases hrun
  exact ⟨rfl, hfull⟩

end SyncEngine

theorem Graph.RenewedFrom.bindAll {s : RecordStore} {p : String} {fresh now : Graph}
    (h : fresh.RenewedFrom s p now) (rs : List ClassRecord) :
    (fresh.bindAll rs).RenewedFrom s p now := by
  obtain ⟨ids, heq⟩ := fresh.bindAll_eq rs
  rw [heq]
  exact ⟨h.nodes, h.outgoing, h.incoming, h.entryPoints, h.links, h.info, h.methods⟩

/-! ## Syncs of everything and fresh analyses -/

section LikeFresh

variable {e : SyncEngine σ} {c : Collaborators σ} {state : ProjectState}
  {given : Option Examiner} {tools : Tooling} {a : FreshAnalysis} {r : SyncResult}

/-- Where a fresh analysis succeeds without a failed extraction, and the same is to be seen, with
the same examiner and no enricher, a sync of everything is completed if nothing hinders it. A
completed one publishes the graph of the analysis, but for the records to which nodes are tied
and for the descriptions and texts of methods, which are those that are stored. If no record was
stored and ids are issued from the same number on, graph, records and state are the same. -/
theorem SyncEngine.resync_like_fresh (he : e.collaborators.Unobtrusive) (hc : c.Unobtrusive)
    (hw : w.files.WellFormed) (hlasting : w.vanishing = [])
    (hsight : Run.sight v = Run.sight w)
    (hexaminer : ((FreshAnalysis.chooseExaminer given (Path.ofText state.repoPath) state tools :
        Run σ Examiner).run v).1 =
      FreshAnalysis.examinerFor w.files (Path.ofText state.repoPath) state.language e.tools)
    (hanalyzed : (FreshAnalysis.runWith c (Path.ofText state.repoPath) state given tools).run v =
      (.ok a, v'))
    (hextracted : a.summary.parseFailures = 0)
    (hsynced : (e.sync state).run w = (.ok r, w')) :
    (e.ResyncsFully state w → w.records.Unrefused → e.Persists →
        r.status = .completed ∧ r.full = true) ∧
      (r.status = .completed → r.full = true →
        ∃ g, w'.registry.get? state.id = some g ∧ v'.registry.get? state.id = some a.graph ∧
          a.graph.RenewedFrom w.records.store state.id g ∧
          (w.records.store.findByProject state.id = [] →
            v.records.store = w.records.store → v.records.issued = w.records.issued →
            c.clock = e.clock → a.summary.commit = r.commit →
              g = a.graph ∧ w'.records.store = v'.records.store ∧ r.state = a.summary.state)) := by
  obtain ⟨x, v₁, found, v₂, rs, hchosen, hcommitted, hsurveyed, hdone⟩ :=
    FreshAnalysis.runWith_eq_ok hc.plain hanalyzed
  have hx := hexaminer.symm.trans hchosen
  have hsame₁ := ((FreshAnalysis.keeps_commitOf fun vc hvc => (hc.aside vc hvc).head _).eq
    hcommitted).trans hsight
  have hok : Extraction.failures found.2 = [] := by
    rw [← List.length_eq_zero_iff, ← hdone.failures]
    exact hextracted
  refine ⟨fun hready hfree hpersist =>
    completed_sync he hw hlasting hready hfree hpersist hx hsame₁ hsurveyed hsynced,
    fun hcompleted hfull => ?_⟩
  obtain ⟨y, u, u', found', head, t, hy, hsight₂, hsurveyed', hresynced⟩ :=
    sync_resynced he hw hlasting hsynced hcompleted hfull
  obtain rfl := Except.ok.inj (hx.symm.trans hy)
  have hfound := ((Run.seesOnly_inSession (FreshAnalysis.seesOnly_surveyAll x
    (Path.ofText state.repoPath))) v₁ u (hsame₁.trans hsight₂.symm)).1
  rw [hsurveyed, hsurveyed'] at hfound
  obtain rfl := Except.ok.inj hfound
  have hall := FreshAnalysis.surveyAll_eq_ok hsurveyed
  refine ⟨t.graph, hresynced.published, hdone.published, ?_,
    fun hnone hstore hissued hclock hcommit => ?_⟩
  · rw [hdone.graph]
    exact (hresynced.renewedFrom hok hall).bindAll rs
  · have hcommit' := hcommit.trans hresynced.commit
    have hrs := hdone.staged
    rw [hcommit', hissued] at hrs
    obtain ⟨hgraph, hwritten⟩ := hresynced.unstored hok hall hnone hrs
    have hgraph' := hgraph.trans hdone.graph.symm
    refine ⟨hgraph', ?_, ?_⟩
    · rw [hwritten, hdone.store, hstore, hissued, hnone, List.map_nil, deleteClasses_nil, hgraph']
    · rw [hresynced.advanced, hdone.advanced, hclock, hcommit', hgraph']

end LikeFresh

/-! ## A first sync and a later one -/

namespace Sample

/-- The files of the sample project, none of them analyzed yet. -/
def untouched : Workspace Unit := workspace [targetFile, userFile]

/-- The analyzed workspace with a description of the second class. -/
def annotated : Workspace Unit :=
  { analyzed with records := { analyzed.records with
      store := analyzed.records.store.saveClasses
        [⟨StoreAccess.idOfNumber 2, "p", "B", "B.java", .other, some "Uses A.", none⟩] } }

/-- An analysis of the sample project at the commit at which it is synced. -/
def versionedAnalysis : Run Unit FreshAnalysis :=
  FreshAnalysis.runWith resyncing.collaborators (Path.ofText project.repoPath) project none tools

theorem resyncing_unobtrusive : resyncing.collaborators.Unobtrusive where
  discreet := resyncing_discreet
  aside v hv := by
    cases hv
    exact ⟨fun _ => .pure _, fun _ _ _ => .pure _⟩
  unenriched := rfl

theorem resyncsFully_of_idle {w : Workspace Unit} (h : w.syncing = []) :
    resyncing.ResyncsFully project w where
  idle := by
    rw [h]
    exact List.not_mem_nil
  everything := ⟨"c2", SyncEngine.held project w, .fullResync "c2", SyncEngine.held project w, rfl,
    by decide, rfl, rfl⟩

end Sample

open Sample in
/-- The first sync of the sample project does what an analysis does. One of the annotated
workspace publishes the graph of an analysis with the stored description. -/
theorem SyncEngine.resync_like_fresh_of_sample :
    (∃ a v' r w', versionedAnalysis.run untouched = (.ok a, v') ∧
        (resyncing.sync project).run untouched = (.ok r, w') ∧
        w'.registry.get? project.id = some a.graph ∧
        w'.records.store = v'.records.store ∧ r.state = a.summary.state) ∧
      ∃ a v' r w' g, versionedAnalysis.run annotated = (.ok a, v') ∧
        (resyncing.sync project).run annotated = (.ok r, w') ∧
        w'.registry.get? project.id = some g ∧
        a.graph.RenewedFrom annotated.records.store project.id g ∧
        g.description? "B" = some "Uses A." := by
  have hanalyses (w : Workspace Unit) (hw : w = untouched ∨ w = annotated) :
      ∃ a v', versionedAnalysis.run w = (.ok a, v') ∧ a.summary.parseFailures = 0 ∧
        a.summary.commit = some "c2" := by
    have hfound : ((versionedAnalysis.run w).1.toOption.map
        fun a => (a.summary.parseFailures, a.summary.commit)) = some (0, some "c2") := by
      rcases hw with rfl | rfl <;> decide +kernel
    obtain ⟨a, v', hrun, hresult⟩ := Fallible.exists_eq_ok hfound
    exact ⟨a, v', hrun, Prod.mk.inj hresult⟩
  have hsyncs (w : Workspace Unit) (hw : w = untouched ∨ w = annotated) :
      ∃ r w', (resyncing.sync project).run w = (.ok r, w') ∧ r.commit = some "c2" := by
    have hfound : (((resyncing.sync project).run w).1.toOption.map fun r => r.commit) =
        some (some "c2") := by
      rcases hw with rfl | rfl <;> decide +kernel
    exact Fallible.exists_eq_ok hfound
  have hinitial (w : Workspace Unit) (hw : w = untouched ∨ w = annotated) :
      w.files.WellFormed ∧ w.vanishing = [] ∧ w.syncing = [] := by
    rcases hw with rfl | rfl <;> decide +kernel
  have hpersist : resyncing.Persists := fun _ h => by cases h
  constructor
  · obtain ⟨hfiles, hlasting, hidle⟩ := hinitial untouched (Or.inl rfl)
    obtain ⟨a, v', hanalyzed, hextracted, hcommit⟩ := hanalyses untouched (Or.inl rfl)
    obtain ⟨r, w', hsynced, hhead⟩ := hsyncs untouched (Or.inl rfl)
    obtain ⟨hcompleted, hpublished⟩ := resync_like_fresh resyncing_unobtrusive
      resyncing_unobtrusive hfiles hlasting rfl rfl hanalyzed hextracted hsynced
    obtain ⟨hdone, hfull⟩ := hcompleted (resyncsFully_of_idle hidle) rfl hpersist
    obtain ⟨g, hg, -, -, hsame⟩ := hpublished hdone hfull
    obtain ⟨rfl, hstore, hstate⟩ := hsame rfl rfl rfl rfl (hcommit.trans hhead.symm)
    exact ⟨a, v', r, w', hanalyzed, hsynced, hg, hstore, hstate⟩
  · obtain ⟨hfiles, hlasting, hidle⟩ := hinitial annotated (Or.inr rfl)
    have hfree := (Ledger.Undisturbed.step .start step_ledger).sound.2
    rw [← records_ledger] at hfree
    obtain ⟨a, v', hanalyzed, hextracted, -⟩ := hanalyses annotated (Or.inr rfl)
    obtain ⟨r, w', hsynced, -⟩ := hsyncs annotated (Or.inr rfl)
    obtain ⟨hcompleted, hpublished⟩ := resync_like_fresh resyncing_unobtrusive
      resyncing_unobtrusive hfiles hlasting rfl rfl hanalyzed hextracted hsynced
    obtain ⟨hdone, hfull⟩ := hcompleted (resyncsFully_of_idle hidle) hfree hpersist
    obtain ⟨g, hg, -, hrenewed, -⟩ := hpublished hdone hfull
    refine ⟨a, v', r, w', g, hanalyzed, hsynced, hg, hrenewed, ?_⟩
    have hdescribed : (((resyncing.sync project).run annotated).2.registry.get? project.id).bind
        (·.description? "B") = some "Uses A." := by
      decide +kernel
    rw [hsynced] at hdescribed
    rwa [hg] at hdescribed

end CodeAtlas
