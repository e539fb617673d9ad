import CodeAtlas.Proofs.Run.Extraction

/-!
# What examinations see

Examining sources reads the files, the session and the analyzers that are going to be started,
and nothing else: not the log of the host, not the programs that are not analyzers, not the
records. This file proves that examinations which see the same find the same.
-/

namespace CodeAtlas

namespace Fallible

variable {ε S α β γ : Type} {part : S → γ} {x : ExceptT ε (StateM S) α}
  {f : α → ExceptT ε (StateM S) β}

/-- Whether a step sees only part of the state: where that part is the same, the outcome is the
same, and so is the part afterwards. -/
def SeesOnly (part : S → γ) (x : ExceptT ε (StateM S) α) : Prop :=
  ∀ s t, part s = part t →
    (x.run s).1 = (x.run t).1 ∧ part (x.run s).2 = part (x.run t).2

theorem SeesOnly.pure (a : α) : SeesOnly part (pure a : ExceptT ε (StateM S) α) :=
  fun _ _ h => ⟨rfl, h⟩

theorem SeesOnly.bind (hx : SeesOnly part x) (hf : ∀ a, SeesOnly part (f a)) :
    SeesOnly part (x >>= f) := by
  intro s t h
  obtain ⟨hout, hpart⟩ := hx s t h
  rw [run_bind, run_bind]
  cases hs : x.run s with
  | mk o s' =>
    cases ht : x.run t with
    | mk o' t' =>
      rw [hs, ht] at hout hpart
      obtain rfl : o = o' := hout
      cases o with
      | ok a => exact hf a s' t' hpart
      | error e => exact ⟨rfl, hpart⟩

end Fallible

open Fallible

/-! ## Examiners -/

/-- What examinations see besides the files: the session, and the analyzers that are going to be
started. -/
def ExaminerState.sight (s : ExaminerState) : Option AnalyzerSession × List AnalyzerProcess :=
  (s.session, s.host.analyzers)

namespace Examining

variable {α : Type} {x : Examining α}

theorem seesOnly_ofOutcome (o : Outcome α) :
    SeesOnly ExaminerState.sight (Examining.ofOutcome o) := fun _ _ h => ⟨rfl, h⟩

theorem seesOnly_attempt (hx : SeesOnly ExaminerState.sight x) :
    SeesOnly ExaminerState.sight x.attempt := by
  intro s t h
  obtain ⟨hout, hsight⟩ := hx s t h
  rw [run_attempt, run_attempt, hout]
  exact ⟨rfl, hsight⟩

theorem analyzers_endAnalyzer (h : ProcessHost) (p : AnalyzerProcess) :
    (h.endAnalyzer p).analyzers = h.analyzers := by
  unfold ProcessHost.endAnalyzer
  split <;> rfl

theorem analyzers_finish (running : Option AnalyzerProcess) (h : ProcessHost) :
    (AnalyzerSession.finish running h).analyzers = h.analyzers := by
  unfold AnalyzerSession.finish
  split
  · exact analyzers_endAnalyzer ..
  · rfl

/-- An exchange with an analyzer is the same on hosts with the same analyzers. -/
theorem exchange_congr (command : List String) (running : Option AnalyzerProcess)
    {h k : ProcessHost} (hanalyzers : h.analyzers = k.analyzers) (r : AnalyzerRequest) :
    let a := AnalyzerSession.exchange command running h r
    let b := AnalyzerSession.exchange command running k r
    a.1 = b.1 ∧ a.2.1 = b.2.1 ∧ a.2.2.analyzers = b.2.2.analyzers := by
  have hstart : (h.startAnalyzer command).1 = (k.startAnalyzer command).1 ∧
      (h.startAnalyzer command).2.analyzers = (k.startAnalyzer command).2.analyzers := by
    simp [ProcessHost.startAnalyzer, ProcessHost.record, hanalyzers]
  have hrunning : (AnalyzerSession.ensureRunning command running h).1 =
        (AnalyzerSession.ensureRunning command running k).1 ∧
      (AnalyzerSession.ensureRunning command running h).2.analyzers =
        (AnalyzerSession.ensureRunning command running k).2.analyzers := by
    unfold AnalyzerSession.ensureRunning
    split
    · split
      · exact hstart
      · exact ⟨rfl, hanalyzers⟩
    · exact hstart
  unfold AnalyzerSession.exchange
  dsimp only
  rw [hrunning.1]
  split
  · exact ⟨rfl, rfl, hrunning.2⟩
  · exact ⟨rfl, rfl, hrunning.2⟩

theorem seesOnly_ask (command : List String) (r : AnalyzerRequest) :
    SeesOnly ExaminerState.sight (Examining.ask command r) := by
  rintro ⟨h, session⟩ ⟨k, session'⟩ heq
  obtain ⟨rfl, hanalyzers⟩ := Prod.mk.inj heq
  obtain ⟨hout, hprocess, hhost⟩ :=
    exchange_congr command (session.bind (·.running)) hanalyzers r
  unfold Examining.ask
  simp only [ExceptT.run, ExceptT.mk]
  cases session with
  | some s =>
    refine ⟨hout, Prod.ext ?_ hhost⟩
    exact congrArg (fun p => some (⟨some p, s.analyses⟩ : AnalyzerSession)) hprocess
  | none =>
    refine ⟨hout, Prod.ext rfl ?_⟩
    exact (analyzers_endAnalyzer ..).trans (hhost.trans (analyzers_endAnalyzer ..).symm)

theorem seesOnly_kept (file : Path) {x : Examining ModuleAnalysis}
    (hx : SeesOnly ExaminerState.sight x) :
    SeesOnly ExaminerState.sight (Examining.kept file x) := by
  have hkeep (a : ModuleAnalysis) : SeesOnly ExaminerState.sight (do
      modify fun s : ExaminerState => { s with
        session := s.session.map fun session =>
          { session with analyses := session.analyses.insert file a } }
      return a : Examining ModuleAnalysis) := by
    intro s t h
    obtain ⟨hsession, hanalyzers⟩ := Prod.mk.inj h
    refine ⟨rfl, Prod.ext ?_ hanalyzers⟩
    change s.session.map _ = t.session.map _
    rw [hsession]
  intro s t h
  unfold Examining.kept
  rw [run_bind_of_ok (show (get : Examining ExaminerState).run s = (.ok s, s) from rfl),
    run_bind_of_ok (show (get : Examining ExaminerState).run t = (.ok t, t) from rfl),
    (Prod.mk.inj h).1]
  split
  · exact ⟨rfl, h⟩
  · exact (hx.bind hkeep) s t h

theorem seesOnly_inSession (hx : SeesOnly ExaminerState.sight x) :
    SeesOnly ExaminerState.sight (Examining.inSession x) := by
  intro s t h
  obtain ⟨hsession, hanalyzers⟩ := Prod.mk.inj h
  rw [Graph.run_inSession, Graph.run_inSession, hsession]
  cases t.session with
  | some session => exact hx s t h
  | none =>
    obtain ⟨hout, hsight⟩ := hx { s with session := some .fresh }
      { t with session := some .fresh } (Prod.ext rfl hanalyzers)
    refine ⟨hout, Prod.ext rfl ?_⟩
    exact (analyzers_finish ..).trans ((Prod.mk.inj hsight).2.trans (analyzers_finish ..).symm)

end Examining

namespace Examiner

variable (e : Examiner) (s : Sources) (file root : Path) (known : List String)

theorem seesOnly_moduleAnalysis : SeesOnly ExaminerState.sight (e.moduleAnalysis s file) := by
  unfold moduleAnalysis
  split
  · exact Examining.seesOnly_ofOutcome _
  · refine Examining.seesOnly_kept _ ?_
    unfold askAnalyzer
    refine (Examining.seesOnly_ofOutcome _).bind fun content => ?_
    exact (Examining.seesOnly_ofOutcome _).bind fun setting => Examining.seesOnly_ask _ _

/-- What is asked about a file follows from the files, or else from its module analysis. -/
theorem seesOnly_byLanguage {l : Language} {java go python : Outcome α}
    {typescript : ModuleAnalysis → α} (e : Examiner) (s : Sources) (file : Path) :
    SeesOnly ExaminerState.sight
      (match l with
      | .java => Examining.ofOutcome java
      | .go => Examining.ofOutcome go
      | .python => Examining.ofOutcome python
      | .typescript => do return typescript (← e.moduleAnalysis s file)) := by
  cases l with
  | java | go | python => exact Examining.seesOnly_ofOutcome _
  | typescript => exact (seesOnly_moduleAnalysis e s file).bind fun a => .pure _

theorem seesOnly_dependencies :
    SeesOnly ExaminerState.sight (e.dependencies s file root known) := by
  unfold dependencies
  exact seesOnly_byLanguage e s file

theorem seesOnly_isEntryPoint : SeesOnly ExaminerState.sight (e.isEntryPoint s file) := by
  unfold isEntryPoint
  exact seesOnly_byLanguage e s file

theorem seesOnly_kind : SeesOnly ExaminerState.sight (e.kind s file) := by
  unfold kind
  exact seesOnly_byLanguage e s file

theorem seesOnly_methods : SeesOnly ExaminerState.sight (e.methods s file) := by
  unfold methods
  exact seesOnly_byLanguage e s file

theorem seesOnly_parameterTargets :
    SeesOnly ExaminerState.sight (e.parameterTargets s file root known) := by
  unfold parameterTargets
  exact seesOnly_byLanguage e s file

end Examiner

/-! ## Surveys and extractions -/

section Surveys

variable (e : Examiner) (s : Sources) (root : Path) (known : List String)

theorem Survey.seesOnly_dependencyPass (total done : Nat) (us : List SourceUnit) (g : Graph) :
    SeesOnly ExaminerState.sight (dependencyPass e s root known total done us g) := by
  induction us generalizing done g with
  | nil => exact .pure _
  | cons u us ih =>
    unfold dependencyPass
    refine (Examining.seesOnly_attempt (e.seesOnly_dependencies s u.path root known)).bind
      fun o => ?_
    cases o with
    | ok targets => exact (ih (done + 1) _).bind fun r => .pure _
    | error f => exact ih (done + 1) g

theorem Survey.seesOnly_entryPointPass (us : List SourceUnit) (g : Graph) :
    SeesOnly ExaminerState.sight (entryPointPass e s us g) := by
  induction us generalizing g with
  | nil => exact .pure _
  | cons u us ih =>
    unfold entryPointPass
    refine (Examining.seesOnly_attempt (e.seesOnly_isEntryPoint s u.path)).bind fun o => ?_
    split
    · exact ih _
    · exact ih _

theorem Survey.seesOnly_take (t : FileTree) (repository : Path) :
    SeesOnly ExaminerState.sight (take e t repository) := by
  unfold take
  refine Examining.seesOnly_inSession ?_
  refine (Examining.seesOnly_ofOutcome _).bind fun root => ?_
  refine (Examining.seesOnly_ofOutcome _).bind fun files => ?_
  dsimp only
  split
  · exact .pure _
  · refine (Examining.seesOnly_ofOutcome _).bind fun g => ?_
    refine (seesOnly_dependencyPass e _ root _ _ 0 _ g).bind fun r => ?_
    exact (seesOnly_entryPointPass e _ _ _).bind fun g => .pure _

theorem UnitFacts.seesOnly_extract (file : Path) :
    SeesOnly ExaminerState.sight (UnitFacts.extract e s root known file) := by
  unfold UnitFacts.extract
  refine (e.seesOnly_kind s file).bind fun kind => ?_
  refine (e.seesOnly_methods s file).bind fun methods => ?_
  exact (e.seesOnly_parameterTargets s file root known).bind fun parameters => .pure _

theorem Graph.seesOnly_extractAll (us : List SourceUnit) :
    SeesOnly ExaminerState.sight (extractAll e s root known us) := by
  induction us with
  | nil => exact .pure _
  | cons u us ih =>
    unfold extractAll
    refine (Examining.seesOnly_attempt (UnitFacts.seesOnly_extract e s root known u.path)).bind
      fun o => ?_
    exact ih.bind fun later => .pure _

theorem Graph.seesOnly_extractions (g : Graph) (repository : Path)
    (units : Option (List SourceUnit)) (only : Option (List String)) :
    SeesOnly ExaminerState.sight (g.extractions e s repository units only) := by
  unfold extractions
  refine Examining.seesOnly_inSession ?_
  refine (Examining.seesOnly_ofOutcome _).bind fun root => ?_
  refine (Examining.seesOnly_ofOutcome _).bind fun found => ?_
  exact seesOnly_extractAll e s root _ _

end Surveys

/-! ## Runs -/

namespace Run

variable {σ α : Type} {x : Run σ α}

/-- What the examinations of runs see. -/
def sight (w : Workspace σ) :
    FileTree × List Path × Option AnalyzerSession × List AnalyzerProcess :=
  (w.files, w.vanishing, w.examiner.sight)

theorem seesOnly_files_bind {β : Type} {f : FileTree → Run σ β}
    (hf : ∀ t, SeesOnly sight (f t)) : SeesOnly sight (files >>= f) := by
  intro w v h
  rw [run_files_bind, run_files_bind, (Prod.mk.inj h).1]
  exact hf v.files w v h

theorem seesOnly_examine {y : Examining α} (hy : SeesOnly ExaminerState.sight y) :
    SeesOnly sight (examine y : Run σ α) := by
  intro w v h
  obtain ⟨hfiles, h⟩ := Prod.mk.inj h
  obtain ⟨hvanishing, hexaminer⟩ := Prod.mk.inj h
  obtain ⟨hout, hsight⟩ := hy w.examiner v.examiner hexaminer
  exact ⟨hout, Prod.ext hfiles (Prod.ext hvanishing hsight)⟩

theorem seesOnly_inSession (hx : SeesOnly sight x) : SeesOnly sight (Run.inSession x) := by
  intro w v h
  obtain ⟨hfiles, hrest⟩ := Prod.mk.inj h
  obtain ⟨hvanishing, hexaminer⟩ := Prod.mk.inj hrest
  obtain ⟨hsession, hanalyzers⟩ := Prod.mk.inj hexaminer
  rw [run_inSession, run_inSession, hsession]
  cases v.examiner.session with
  | some session => exact hx w v h
  | none =>
    obtain ⟨hout, hsight⟩ := hx
      { w with examiner := { w.examiner with session := some .fresh } }
      { v with examiner := { v.examiner with session := some .fresh } }
      (Prod.ext hfiles (Prod.ext hvanishing (Prod.ext rfl hanalyzers)))
    obtain ⟨hfiles', hrest'⟩ := Prod.mk.inj hsight
    obtain ⟨hvanishing', hexaminer'⟩ := Prod.mk.inj hrest'
    refine ⟨hout, Prod.ext hfiles' (Prod.ext hvanishing' (Prod.ext rfl ?_))⟩
    exact (Examining.analyzers_finish ..).trans
      ((Prod.mk.inj hexaminer').2.trans (Examining.analyzers_finish ..).symm)

end Run

/-! ## Version control -/

/-- Version control that leaves alone what examinations see. -/
structure VersionControl.Aside {σ : Type} (v : VersionControl σ) : Prop where
  head : ∀ repository, Keeps Run.sight (v.head repository)
  diff : ∀ repository old new, Keeps Run.sight (v.diff repository old new)

namespace Git

/-- Version control starts no analyzer. -/
theorem keeps_run (arguments : List String) : Keeps ProcessHost.analyzers (run arguments) := by
  intro h
  unfold run
  rw [run_bind_of_ok (show (get : HostRun ProcessHost).run h = (.ok h, h) from rfl)]
  dsimp only
  rw [run_bind_of_ok (show (set (h.runVersionControl arguments).2 : HostRun PUnit).run h =
    (.ok ⟨⟩, (h.runVersionControl arguments).2) from rfl)]
  split
  · rfl
  · rfl
  · split <;> rfl

theorem keeps_commitExists (anchor : String) :
    Keeps ProcessHost.analyzers (commitExists anchor) := by
  intro h
  have hrun := keeps_run (existsArguments anchor) h
  unfold commitExists
  simp only [ExceptT.run_mk, bind, StateT.bind]
  cases hx : (run (existsArguments anchor)).run h with
  | mk o k =>
    rw [hx] at hrun
    cases o with
    | ok output => exact hrun
    | error f => cases f <;> exact hrun

theorem keeps_diff (old : Option String) (new : String) :
    Keeps ProcessHost.analyzers (diff old new) := by
  unfold diff
  split
  · exact .pure _
  · split
    · exact .pure _
    · refine (keeps_commitExists _).bind fun known => ?_
      split
      · exact .pure _
      · exact (keeps_run _).bind fun output => .pure _

end Git

/-- Git does so. -/
theorem VersionControl.git_aside {σ : Type} : (VersionControl.git : VersionControl σ).Aside := by
  have hhost {α : Type} {x : HostRun α} (hx : Keeps ProcessHost.analyzers x) :
      Keeps Run.sight (Run.onHost x : Run σ α) :=
    fun w => Prod.ext rfl (Prod.ext rfl (Prod.ext rfl (hx w.examiner.host)))
  refine ⟨fun _ => hhost ?_, fun _ old new => hhost (Git.keeps_diff old new)⟩
  exact (Git.keeps_run _).bind fun _ => .pure _

end CodeAtlas
