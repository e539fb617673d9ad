import CodeAtlas.Proofs.Run.Extraction
import CodeAtlas.Proofs.Source.Units
import CodeAtlas.Proofs.Sync.Stage

/-!
# What syncs find out

Before a sync stages anything, it has asked for the differences, made its plan and extracted the
facts of the added and updated units. This file makes that part of a sync a run of its own, so
that results of syncs can be told by what their extractions came to.
-/

namespace CodeAtlas

namespace SyncEngine

variable {σ : Type} {w w' : Workspace σ}

/-- What a sync has in hand before it extracts anything: the files at the beginning and now, the
survey, the stored records, and graph and plan without the units that have vanished. -/
structure Outline where
  kept : FileTree
  now : FileTree
  survey : Survey
  records : Dict String ClassRecord
  graph : Graph
  plan : SyncPartition

/-- Makes the outline of a sync. -/
def outline (x : Examiner) (repository : Path) (project : String) (diff : Diff) :
    Run σ Outline := do
  let kept ← Run.files
  let survey ← Run.examine (Survey.take x kept repository)
  let stored ← Run.findByProject project
  let records := Dict.ofList (stored.map fun r => (r.identifier, r))
  let plan := SyncPartition.ofGraph records.keys survey.graph diff.changed diff.full
  let now ← Run.files
  let paths := Dict.ofList (survey.units.map fun u => (u.identifier, u.path))
  let r := dropVanished now paths survey.graph plan
  return ⟨kept, now, survey, records, r.1, r.2⟩

namespace Outline

/-- The identifiers whose units are extracted. -/
def wanted (o : Outline) : List String := o.plan.updated ++ o.plan.added

/-- The extractions of an outline. -/
def extractions (o : Outline) (x : Examiner) (repository : Path) : Examining (List Extraction) :=
  o.graph.extractions x ⟨o.kept, o.now⟩ repository (some o.survey.units) (some o.wanted)

/-- The draft to which an outline and its extractions lead. -/
def draft (o : Outline) (xs : List Extraction) : Draft :=
  ⟨o.graph.describedBy xs, demoteFailed (Extraction.failures xs) o.plan, o.records,
    Extraction.failures xs⟩

end Outline

/-- Makes the outline of a sync and extracts the added and updated units. -/
def examined (x : Examiner) (repository : Path) (project : String) (diff : Diff) :
    Run σ (Outline × List Extraction) :=
  Run.inSession do
    let o ← outline x repository project diff
    let xs ← Run.examine (o.extractions x repository)
    return (o, xs)

/-- What a sync finds out. -/
structure Inquiry where
  head : String
  diff : Diff
  examiner : Examiner
  outline : Outline
  extractions : List Extraction

/-- Finds out what a sync goes by. -/
def inquire (e : SyncEngine σ) (state : ProjectState) : Run σ Inquiry := do
  let repository := Path.ofText state.repoPath
  let head ← e.versionControl.head repository
  let diff ← e.versionControl.diff repository state.anchor head
  let x ← Run.ofOutcome
    (FreshAnalysis.examinerFor (← Run.files) repository state.language e.tools)
  let (o, xs) ← examined x repository state.id diff
  return ⟨head, diff, x, o, xs⟩

/-! ## Drafts -/

theorem draft_eq (x : Examiner) (repository : Path) (project : String) (diff : Diff) :
    (draft x repository project diff : Run σ Draft) =
      (fun r => r.1.draft r.2) <$> examined x repository project diff := by
  unfold draft examined
  rw [← Run.inSession_map]
  congr 1
  simp only [outline, Outline.extractions, Outline.wanted, Graph.describe_eq, Run.examine_map,
    map_bind, bind_assoc, pure_bind, map_pure, bind_map_left]
  rfl

/-- What an outline of a sync of a project is about: the project's records, and a plan that is
exact about them and the graph. -/
structure Outline.Fits (o : Outline) (s : RecordStore) (p : String) (diff : Diff) : Prop where
  records : o.records = recordsByIdentifier s p
  bare : o.graph.Bare
  plan : o.plan.Sorts o.records.keys o.graph diff.changed diff.full

theorem outline_eq_ok {x : Examiner} {repository : Path} {project : String} {diff : Diff}
    {o : Outline} (h : (outline x repository project diff : Run σ Outline).run w = (.ok o, w')) :
    o.Fits w.records.store project diff := by
  unfold outline at h
  rw [Run.run_files_bind] at h
  obtain ⟨survey, w₁, hsurvey, h⟩ := Fallible.bind_eq_ok.1 h
  obtain ⟨stored, w₂, hstored, h⟩ := Fallible.bind_eq_ok.1 h
  obtain rfl : stored = w.records.store.findByProject project := by
    rw [← ((Run.discreet_examine _).eq hsurvey).1]
    exact (Except.ok.inj (Prod.mk.inj hstored).1).symm
  rw [Run.run_files_bind] at h
  have hsurveyed : survey.graph.Bare :=
    Run.ensures_examine (Survey.ensures_take x w.files repository) _ _ _ hsurvey
  have hsorts := SyncPartition.sorts_ofGraph
    (recordsByIdentifier w.records.store project).keys hsurveyed.wellFormed.nodes_nodup
    diff.changed diff.full
  obtain rfl := Except.ok.inj (Prod.mk.inj h).1
  exact ⟨rfl, (dropVanished_spec _ _ hsurveyed hsorts.fits).1, sorts_dropVanished _ _ hsorts⟩

/-- The units of the nodes that are wanted. -/
def Outline.units (o : Outline) : List SourceUnit :=
  (Graph.wantedUnits o.survey.units (some o.wanted)).filter fun u =>
    o.graph.contains u.identifier

theorem examined_eq_ok {x : Examiner} {repository : Path} {project : String} {diff : Diff}
    {r : Outline × List Extraction}
    (h : (examined x repository project diff : Run σ _).run w = (.ok r, w')) :
    r.1.Fits w.records.store project diff ∧ r.2.map (·.unit) = r.1.units := by
  unfold examined at h
  obtain ⟨w₀, w₁, hrecords, -, -, h⟩ := Run.inSession_eq_ok h
  obtain ⟨o, w₂, houtline, h⟩ := Fallible.bind_eq_ok.1 h
  obtain ⟨xs, w₃, hextracted, h⟩ := Fallible.bind_eq_ok.1 h
  cases h
  have hunits : Fallible.Ensures (fun xs => xs.map (·.unit) = o.units)
      (o.extractions x repository) :=
    Graph.ensures_extractions o.graph x ⟨o.kept, o.now⟩ repository o.survey.units (some o.wanted)
  rw [← hrecords]
  exact ⟨outline_eq_ok houtline, Run.ensures_examine hunits _ _ _ hextracted⟩

/-- What an outline has seen of a repository: the files as they were, all of its units, and some
of their nodes. -/
structure Outline.Sees (o : Outline) (x : Examiner) (t : FileTree) (repository : Path) : Prop where
  kept : o.kept = t
  covers : o.survey.Covers x t repository
  nodes : ∀ id, o.graph.contains id = true → o.survey.graph.contains id = true ∧
    o.graph.sourceFile? id = o.survey.graph.sourceFile? id

/-- A sync has seen the files with which it began, and its extractions have met what every one
that succeeds ensures. -/
theorem examined_sees {x : Examiner} {repository : Path} {project : String} {diff : Diff}
    {P : SourceUnit → UnitFacts → Prop}
    (hextract : ∀ now root known u,
      Fallible.Ensures (P u) (UnitFacts.extract x ⟨w.files, now⟩ root known u.path))
    {r : Outline × List Extraction}
    (h : (examined x repository project diff : Run σ _).run w = (.ok r, w')) :
    r.1.Sees x w.files repository ∧ ∀ y ∈ r.2, y.Meets P := by
  unfold examined at h
  obtain ⟨w₀, w₁, -, hfiles, -, h⟩ := Run.inSession_eq_ok h
  obtain ⟨o, w₂, houtline, h⟩ := Fallible.bind_eq_ok.1 h
  obtain ⟨xs, w₃, hextracted, h⟩ := Fallible.bind_eq_ok.1 h
  cases h
  rw [← hfiles] at hextract ⊢
  unfold outline at houtline
  rw [Run.run_files_bind] at houtline
  obtain ⟨survey, w₄, hsurvey, houtline⟩ := Fallible.bind_eq_ok.1 houtline
  obtain ⟨stored, w₅, -, houtline⟩ := Fallible.bind_eq_ok.1 houtline
  rw [Run.run_files_bind] at houtline
  cases houtline
  have hcovers := Run.ensures_examine (Survey.ensures_take_covers x w₀.files repository) _ _ _
    hsurvey
  refine ⟨⟨rfl, hcovers, fun id hid => sourceFile?_dropVanished _ _ hid⟩, ?_⟩
  exact Run.ensures_examine (Graph.ensures_extractions_meets (hextract _) _ _ _ _) _ _ _ hextracted

/-- The draft has the nodes of the outline. -/
theorem Outline.nodes_draft (o : Outline) (xs : List Extraction) :
    (o.draft xs).graph.nodes = o.graph.nodes :=
  Graph.nodes_describedBy o.graph xs

/-- What a sync finds out, step by step. -/
theorem inquire_eq_ok {e : SyncEngine σ} {state : ProjectState} {q : Inquiry}
    (hrun : (e.inquire state).run w = (.ok q, w')) :
    ∃ w₁ w₂, (e.versionControl.head (Path.ofText state.repoPath)).run w = (.ok q.head, w₁) ∧
      (e.versionControl.diff (Path.ofText state.repoPath) state.anchor q.head).run w₁ =
        (.ok q.diff, w₂) ∧
      FreshAnalysis.examinerFor w₂.files (Path.ofText state.repoPath) state.language e.tools =
        .ok q.examiner ∧
      (examined q.examiner (Path.ofText state.repoPath) state.id q.diff : Run σ _).run w₂ =
        (.ok (q.outline, q.extractions), w') := by
  unfold inquire at hrun
  obtain ⟨head, w₁, hhead, hrun⟩ := Fallible.bind_eq_ok.1 hrun
  obtain ⟨diff, w₂, hdiff, hrun⟩ := Fallible.bind_eq_ok.1 hrun
  rw [Run.run_files_bind] at hrun
  obtain ⟨x, w₃, hchosen, hrun⟩ := Fallible.bind_eq_ok.1 hrun
  obtain ⟨hx, rfl⟩ := Prod.mk.inj hchosen
  obtain ⟨r, w₄, hexamined, hrun⟩ := Fallible.bind_eq_ok.1 hrun
  cases hrun
  exact ⟨w₁, w₂, hhead, hdiff, hx, hexamined⟩

/-- What has been staged goes by what the sync has found out. -/
structure Staged.GoesBy (t : Staged) (q : Inquiry) : Prop where
  diff : t.diff = q.diff
  examiner : t.examiner = q.examiner
  draft : t.draft = q.outline.draft q.extractions

/-- Staging that succeeds goes by what the sync has found out. -/
theorem stage_inquired {e : SyncEngine σ} (he : e.collaborators.Discreet) {state : ProjectState}
    {head : String} {w₁ : Workspace σ} {t : Staged}
    (hhead : (e.versionControl.head (Path.ofText state.repoPath)).run w = (.ok head, w₁))
    (h : (e.stage state head).run w₁ = (.ok t, w')) :
    ∃ q w₂, (e.inquire state).run w = (.ok q, w₂) ∧ t.GoesBy q ∧
      q.outline.Fits w.records.store state.id q.diff ∧
      q.extractions.map (·.unit) = q.outline.units := by
  have hcontrol := he.versionControl e.versionControl rfl
  unfold stage at h
  dsimp only at h
  obtain ⟨diff, w₂, hdiff, h⟩ := Fallible.bind_eq_ok.1 h
  obtain ⟨files, w₃, hfiles, h⟩ := Fallible.bind_eq_ok.1 h
  obtain ⟨x, w₄, hexaminer, h⟩ := Fallible.bind_eq_ok.1 h
  obtain ⟨d, w₅, hdraft, h⟩ := Fallible.bind_eq_ok.1 h
  have hrecords : w₄.records = w.records := by
    rw [((Run.discreet_ofOutcome _).eq hexaminer).1, (Run.discreet_files.eq hfiles).1,
      ((hcontrol.diff _ _ _).eq hdiff).1, ((hcontrol.head _).eq hhead).1]
  rw [draft_eq, Fallible.run_map] at hdraft
  cases hexamined : (examined x (Path.ofText state.repoPath) state.id diff : Run σ _).run w₄ with
  | mk o w₆ =>
    rw [hexamined] at hdraft
    cases o with
    | error f => cases hdraft
    | ok r =>
      obtain ⟨hfits, hunits⟩ := examined_eq_ok hexamined
      rw [hrecords] at hfits
      obtain ⟨hd, rfl⟩ := Prod.mk.inj hdraft
      obtain rfl := Except.ok.inj hd
      obtain ⟨_, _, -, h⟩ := Fallible.bind_eq_ok.1 h
      obtain ⟨_, _, -, h⟩ := Fallible.bind_eq_ok.1 h
      obtain ⟨_, _, -, h⟩ := Fallible.bind_eq_ok.1 h
      cases h
      refine ⟨⟨head, diff, x, r.1, r.2⟩, w₆, ?_, ⟨rfl, rfl, rfl⟩, hfits, hunits⟩
      unfold inquire
      dsimp only
      rw [Fallible.run_bind_of_ok hhead, Fallible.run_bind_of_ok hdiff,
        Fallible.run_bind_of_ok hfiles, Fallible.run_bind_of_ok hexaminer,
        Fallible.run_bind_of_ok hexamined]
      rfl

end SyncEngine

end CodeAtlas
