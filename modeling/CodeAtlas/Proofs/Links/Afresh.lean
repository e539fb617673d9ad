import CodeAtlas.Proofs.Links.Published

/-!
# Analyses that succeed

What can go wrong in an analysis of a Java repository is that its source files cannot be found or
lead out of it, and that records are refused. This file proves that nothing else does: a
repository that can be surveyed can be analyzed afresh.
-/

namespace CodeAtlas

/-! ## Steps that succeed -/

namespace Fallible

variable {ε S α β : Type} {x : ExceptT ε (StateM S) α} {f : α → ExceptT ε (StateM S) β}

/-- Whether a step succeeds in whatever state it begins. -/
def Succeeds (x : ExceptT ε (StateM S) α) : Prop := ∀ s, ∃ a t, x.run s = (.ok a, t)

theorem Succeeds.pure (a : α) : Succeeds (pure a : ExceptT ε (StateM S) α) :=
  fun s => ⟨a, s, rfl⟩

/-- A sequence succeeds if its first step does, and then what follows upon it. -/
theorem exists_run_bind {s : S} (hx : ∃ a t, x.run s = (.ok a, t))
    (hf : ∀ a t, x.run s = (.ok a, t) → ∃ b u, (f a).run t = (.ok b, u)) :
    ∃ b u, (x >>= f).run s = (.ok b, u) := by
  obtain ⟨a, t, ha⟩ := hx
  obtain ⟨b, u, hb⟩ := hf a t ha
  exact ⟨b, u, bind_eq_ok.2 ⟨a, t, ha, hb⟩⟩

theorem Succeeds.bind (hx : Succeeds x) (hf : ∀ a, Succeeds (f a)) : Succeeds (x >>= f) :=
  fun s => exists_run_bind (hx s) fun a t _ => hf a t

end Fallible

open Fallible

namespace Examining

variable {α β : Type} {x : Examining α}

theorem succeeds_attempt (x : Examining α) : Succeeds x.attempt :=
  fun s => ⟨_, _, run_attempt x s⟩

/-- A sequence that begins with a good outcome succeeds if what follows upon it does. -/
theorem succeeds_ofOutcome_bind {o : Outcome α} {a : α} {f : α → Examining β} (h : o = .ok a)
    (hf : Succeeds (f a)) : Succeeds (Examining.ofOutcome o >>= f) := by
  intro s
  rw [h, run_bind_of_ok (show (Examining.ofOutcome (.ok a)).run s = (.ok a, s) from rfl)]
  exact hf s

theorem succeeds_inSession (hx : Succeeds x) : Succeeds (Examining.inSession x) := by
  intro s
  unfold Examining.inSession
  simp only [ExceptT.run, ExceptT.mk]
  split
  · exact hx s
  · obtain ⟨a, t, ha⟩ := hx { s with session := some .fresh }
    have hfirst : (x { s with session := some .fresh }).1 = .ok a := congrArg Prod.fst ha
    exact ⟨a, _, Prod.ext hfirst rfl⟩

end Examining

/-! ## Surveys and descriptions -/

namespace Survey

variable (e : Examiner) (s : Sources)

theorem succeeds_dependencyPass (root : Path) (known : List String) (total done : Nat)
    (us : List SourceUnit) (g : Graph) :
    Succeeds (dependencyPass e s root known total done us g) := by
  induction us generalizing done g with
  | nil => exact .pure _
  | cons u us ih =>
    unfold dependencyPass
    refine (Examining.succeeds_attempt _).bind fun o => ?_
    cases o with
    | ok targets => exact (ih (done + 1) _).bind fun r => .pure _
    | error f => exact ih (done + 1) g

theorem succeeds_entryPointPass (us : List SourceUnit) (g : Graph) :
    Succeeds (entryPointPass e s us g) := by
  induction us generalizing g with
  | nil => exact .pure _
  | cons u us ih =>
    unfold entryPointPass
    refine (Examining.succeeds_attempt _).bind fun o => ?_
    split
    · exact ih _
    · exact ih _

/-- Units that lie in the repository become nodes. -/
theorem exists_nodesOf {t : FileTree} {repository : Path} {units : List SourceUnit}
    (h : ∀ u ∈ units, ∃ file, u.relativePath t repository = .ok file) :
    ∃ g, nodesOf t repository units = .ok g := by
  unfold nodesOf
  generalize Graph.empty = start
  induction units generalizing start with
  | nil => exact ⟨start, rfl⟩
  | cons u rest ih =>
    obtain ⟨file, hfile⟩ := h u (List.mem_cons_self ..)
    obtain ⟨g, hg⟩ := ih (fun x hx => h x (List.mem_cons_of_mem _ hx))
      (start.addNode u.identifier file)
    refine ⟨g, ?_⟩
    rw [List.foldlM_cons, hfile]
    exact hg

/-- A survey succeeds if the source files can be found and lie in the repository. -/
theorem succeeds_take {e : Examiner} {t : FileTree} {repository root : Path} {files : List Path}
    (hroot : e.sourceRoot (.ofFiles t) repository = .ok root)
    (hfiles : e.discover (.ofFiles t) repository = .ok files)
    (hinside : ∀ u ∈ unitsOf e t root files, ∃ file, u.relativePath t repository = .ok file) :
    Succeeds (take e t repository) := by
  obtain ⟨g, hg⟩ := exists_nodesOf hinside
  unfold take
  refine Examining.succeeds_inSession ?_
  refine Examining.succeeds_ofOutcome_bind (a := root) hroot ?_
  refine Examining.succeeds_ofOutcome_bind (a := files) hfiles ?_
  dsimp only
  split
  · exact .pure _
  · refine Examining.succeeds_ofOutcome_bind hg ?_
    refine (succeeds_dependencyPass _ _ root _ _ 0 _ _).bind fun r => ?_
    exact (succeeds_entryPointPass _ _ _ _).bind fun g => .pure _

/-- So does that of a Java repository, where sources are always found below some root. -/
theorem succeeds_take_java {e : Examiner} (he : e.Suits platform .java) {t : FileTree}
    {repository : Path} (h : t.Surveyable platform repository) :
    Succeeds (take e t repository) := by
  obtain ⟨files, hfiles⟩ := h.found
  obtain ⟨root, hroot⟩ : ∃ root,
      Examiner.sourceRoot ⟨.java, platform, []⟩ (.ofFiles t) repository = .ok root := ⟨_, rfl⟩
  rw [← he.sourceRoot_eq] at hroot
  rw [← he.discover_eq] at hfiles
  have hunits : t.javaUnits platform repository = unitsOf e t root files :=
    FileTree.unitsIn_eq he hroot hfiles
  exact succeeds_take hroot hfiles (hunits ▸ h.inside)

end Survey

namespace Graph

theorem succeeds_describeUnits (e : Examiner) (s : Sources) (root : Path) (known : List String)
    (us : List SourceUnit) (g : Graph) (failed : List String) :
    Succeeds (describeUnits e s root known us g failed) := by
  induction us generalizing g failed with
  | nil => exact .pure _
  | cons u us ih =>
    unfold describeUnits
    split
    · refine (Examining.succeeds_attempt _).bind fun o => ?_
      cases o with
      | ok facts => exact ih _ failed
      | error f => exact ih g _
    · exact ih g failed

/-- Nodes whose units are given can be described, in a Java repository. -/
theorem succeeds_describe_java {e : Examiner} (he : e.language = .java) (s : Sources)
    (repository : Path) (units : List SourceUnit) (only : Option (List String)) (g : Graph) :
    Succeeds (g.describe e s repository (some units) only) := by
  have hroot : ∃ root, e.sourceRoot s repository = .ok root := by
    unfold Examiner.sourceRoot
    rw [he]
    exact ⟨_, rfl⟩
  obtain ⟨root, hroot⟩ := hroot
  unfold describe
  refine Examining.succeeds_inSession (Examining.succeeds_ofOutcome_bind hroot ?_)
  refine Examining.succeeds_ofOutcome_bind rfl ?_
  exact succeeds_describeUnits e s root _ _ g []

end Graph

/-! ## Analyses -/

namespace Run

variable {σ α : Type} {x : Run σ α} {w : Workspace σ}

/-- A session begins with the files as they are. -/
theorem exists_inSession
    (h : ∀ w₁ : Workspace σ, w₁.files = w.files → ∃ a t, x.run w₁ = (.ok a, t)) :
    ∃ a t, (Run.inSession x).run w = (.ok a, t) := by
  unfold Run.inSession
  simp only [ExceptT.run, ExceptT.mk]
  split
  · exact h w rfl
  · obtain ⟨a, t, ha⟩ :=
      h { w with examiner := { w.examiner with session := some .fresh } } rfl
    have hfirst : (x { w with examiner :=
        { w.examiner with session := some .fresh } }).1 = .ok a := congrArg Prod.fst ha
    exact ⟨a, _, Prod.ext hfirst rfl⟩

theorem exists_examine {y : Examining α} (hy : Succeeds y) (w : Workspace σ) :
    ∃ a s, (Run.examine y : Run σ α).run w = (.ok a, { w with examiner := s }) := by
  obtain ⟨a, s, ha⟩ := hy w.examiner
  refine ⟨a, s, ?_⟩
  unfold Run.examine
  simp only [ExceptT.run, ExceptT.mk] at ha ⊢
  rw [ha]

/-- What the records allow is written to a store that refuses nothing. -/
theorem exists_write (sw : StoreWrite) (hfree : w.records.Unrefused) {t : RecordStore}
    (hok : w.records.store.write sw = .ok t) :
    ∃ w', (Run.write sw : Run σ Unit).run w = (.ok (), w') ∧ w'.records.store = t ∧
      w'.records.Unrefused := by
  obtain ⟨hfirst, hstore⟩ := hfree.write_eq hok
  refine ⟨{ w with records := (StoreAccess.write sw w.records).2 }, ?_, hstore,
    (StoreAccess.refusal_write sw w.records).trans hfree⟩
  rw [Run.run_write, hfirst]

theorem exists_orRestore (snap : Snapshot) (h : ∃ a t, x.run w = (.ok a, t)) :
    ∃ a t, (Run.orRestore snap x).run w = (.ok a, t) := by
  obtain ⟨a, t, ha⟩ := h
  refine ⟨a, t, ?_⟩
  unfold Run.orRestore
  rw [run_bind_of_ok (Run.run_attempt x w), ha]
  rfl

end Run

namespace FreshAnalysis

variable {σ : Type} {w : Workspace σ}

/-- A repository that can be surveyed can be examined. -/
theorem exists_examineAll {e : Examiner} (he : e.Suits platform .java) {repository : Path}
    (h : w.files.Surveyable platform repository) :
    ∃ r w', (examineAll e repository : Run σ _).run w = (.ok r, w') := by
  unfold examineAll
  refine Run.exists_inSession fun w₁ hfiles => ?_
  rw [← hfiles] at h
  rw [Run.run_files_bind]
  obtain ⟨survey, s, hsurvey⟩ := Run.exists_examine (Survey.succeeds_take_java he h) w₁
  rw [run_bind_of_ok hsurvey]
  obtain ⟨r, s', hdescribed⟩ := Run.exists_examine
    (Graph.succeeds_describe_java he.language (.ofFiles w₁.files) repository survey.units none
      survey.graph)
    { w₁ with examiner := s }
  rw [run_bind_of_ok hdescribed]
  exact ⟨_, _, rfl⟩

/-- Staged records can be written: methods are of classes that are written before. -/
theorem exists_writeStaged (hfree : w.records.Unrefused) (g : Graph) {classes : List ClassRecord}
    {methods : List MethodRecord} (hmethods : ∀ m ∈ methods, ∃ r ∈ classes, m.classId = r.id) :
    ∃ w', (writeStaged g classes methods : Run σ Unit).run w = (.ok (), w') := by
  obtain ⟨w₁, hclasses, hstore, hfree₁⟩ := Run.exists_write (.saveClasses classes) hfree rfl
  have hknown : ∀ m ∈ methods, w₁.records.store.classes.contains m.classId = true := by
    intro m hm
    obtain ⟨r, hr, hid⟩ := hmethods m hm
    obtain ⟨r', -, -, hget⟩ := RecordStore.exists_getClass?_saveClasses
      (s := w.records.store) (List.mem_map_of_mem hr)
    rw [hstore, hid]
    exact Dict.contains_of_get?_eq_some hget
  obtain ⟨w₂, hrows, -, hfree₂⟩ := Run.exists_write (.saveMethods methods) hfree₁
    (RecordStore.saveMethods_of_known hknown)
  obtain ⟨w₃, hlinks, -, -⟩ := Run.exists_write (.saveLinks (allLinks g classes)) hfree₂ rfl
  unfold writeStaged
  rw [run_bind_of_ok hclasses, run_bind_of_ok hrows]
  exact ⟨w₃, hlinks⟩

theorem exists_deleteClasses (hfree : w.records.Unrefused) (ids : List String) :
    ∃ w', (deleteClasses ids : Run σ Unit).run w = (.ok (), w') ∧ w'.records.Unrefused := by
  unfold deleteClasses
  split
  · exact ⟨w, rfl, hfree⟩
  · obtain ⟨w', hrun, -, hfree'⟩ := Run.exists_write (.deleteClasses ids) hfree rfl
    exact ⟨w', hrun, hfree'⟩

/-- A store that refuses nothing takes the records of a graph in place of a project's. -/
theorem exists_replaceRecords (hfree : w.records.Unrefused) (snap : Snapshot)
    (commit : Option String) (g : Graph) :
    ∃ h w', (replaceRecords snap commit g : Run σ Graph).run w = (.ok h, w') := by
  obtain ⟨w₁, hdelete, hfree₁⟩ := exists_deleteClasses hfree (snap.classes.map (·.id))
  unfold replaceRecords
  rw [run_bind_of_ok hdelete, run_bind_of_ok (Run.run_onStore _ w₁), stageClasses_eq]
  dsimp only
  rw [run_bind_of_ok (Run.run_onStore _ _), stageAllMethods_eq]
  dsimp only
  refine exists_run_bind ⟨(), ?_⟩ fun _ w₂ _ => ⟨_, w₂, rfl⟩
  refine exists_writeStaged ?_ _ fun m hm => classId_of_mem_allRowsFrom hm
  exact hfree₁

/-- A Java repository that can be surveyed can be analyzed afresh, for any project, if nobody is
asked and no record is refused. -/
theorem exists_runWith {repository : Path} (hw : w.files.Surveyable platform repository)
    (hfree : w.records.Unrefused) {e : Examiner} (he : e.Suits platform .java) (clock : String)
    (state : ProjectState) (tools : Tooling) :
    ∃ a w', (runWith ⟨none, none, none, clock⟩ repository state (some e) tools).run w =
      (.ok a, w') := by
  obtain ⟨⟨survey, g, failed⟩, w₁, hexamined⟩ := exists_examineAll he hw
  have hrecords : w₁.records = w.records := ((examineAll_discreet e repository).eq hexamined).1
  obtain ⟨snap, w₂, hsnapshot⟩ : ∃ snap w₂,
      (Run.takeSnapshot state.id : Run σ Snapshot).run w₁ = (.ok snap, w₂) := ⟨_, _, rfl⟩
  have hrecords₂ : w₂.records = w₁.records :=
    ((Run.discreet_takeSnapshot state.id).eq hsnapshot).1
  have hfree₂ : w₂.records.Unrefused := by rwa [hrecords₂, hrecords]
  have hstored : ∃ r w₄, (store ⟨none, none, none, clock⟩ repository e state none snap g).run w₂ =
      (.ok r, w₄) := by
    unfold store
    exact exists_run_bind (exists_replaceRecords hfree₂ snap none g) fun h w₃ _ => ⟨_, w₃, rfl⟩
  obtain ⟨r, w₄, hstore⟩ := Run.exists_orRestore snap hstored
  have hfind : (find ⟨none, none, none, clock⟩ repository state.id e).run w =
      (.ok ⟨none, survey, g, failed, snap⟩, w₂) := by
    unfold find
    rw [run_bind_of_ok (show (commitOf ⟨none, none, none, clock⟩ repository).run w =
      (.ok none, w) from rfl), run_bind_of_ok hexamined, run_bind_of_ok hsnapshot]
    rfl
  have hchoose : (chooseExaminer (some e) repository state tools : Run σ Examiner).run w =
      (.ok e, w) := rfl
  unfold runWith run
  rw [run_bind_of_ok hchoose, run_bind_of_ok hfind, run_bind_of_ok hstore]
  exact ⟨_, _, rfl⟩

end FreshAnalysis

end CodeAtlas
