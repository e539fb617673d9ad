import CodeAtlas.Proofs.Run.Surveyed

/-!
# Files that are examined one by one

In Java and in Go the kind and the methods of a unit depend on nothing but its own file. This file
says what the units of a repository are, and what extraction gives for a file, whoever asks for it
and whatever has been asked before.
-/

namespace CodeAtlas

open Fallible

/-- Whether an examiner examines sources in a language, on a platform. -/
structure Examiner.Suits (x : Examiner) (platform : Platform) (lang : Language) : Prop where
  language : x.language = lang
  platform : x.tools.toPlatform = platform

namespace Examiner.Suits

variable {x : Examiner} {platform : Platform} {lang : Language} (hx : x.Suits platform lang)
include hx

/-- The analyzer plays no part in where sources are looked for. -/
theorem sourceRoot_eq : x.sourceRoot = Examiner.sourceRoot ⟨lang, platform, []⟩ := by
  obtain ⟨_, _, analyzer⟩ := x
  obtain ⟨rfl, rfl⟩ := hx
  rfl

theorem discover_eq : x.discover = Examiner.discover ⟨lang, platform, []⟩ := by
  obtain ⟨_, _, analyzer⟩ := x
  obtain ⟨rfl, rfl⟩ := hx
  rfl

/-- Nor does it in what the units are called. -/
theorem unitsOf_eq : Survey.unitsOf x = Survey.unitsOf ⟨lang, platform, []⟩ := by
  obtain ⟨_, _, analyzer⟩ := x
  obtain ⟨rfl, rfl⟩ := hx
  rfl

end Examiner.Suits

namespace FileTree

/-! ## Units -/

/-- The units of a repository's source files in a language, on a platform. -/
def unitsIn (t : FileTree) (platform : Platform) (lang : Language) (repository : Path) :
    List SourceUnit :=
  let x : Examiner := ⟨lang, platform, []⟩
  match x.sourceRoot (.ofFiles t) repository, x.discover (.ofFiles t) repository with
  | .ok root, .ok files => Survey.unitsOf x t root files
  | _, _ => []

variable {t old new : FileTree} {platform : Platform} {lang : Language}
  {repository root file : Path}

/-- They are the units that any examiner of the language finds on the platform. -/
theorem unitsIn_eq {x : Examiner} (hx : x.Suits platform lang) {files : List Path}
    (hroot : x.sourceRoot (.ofFiles t) repository = .ok root)
    (hfiles : x.discover (.ofFiles t) repository = .ok files) :
    t.unitsIn platform lang repository = Survey.unitsOf x t root files := by
  rw [hx.sourceRoot_eq] at hroot
  rw [hx.discover_eq] at hfiles
  unfold unitsIn
  dsimp only
  rw [hroot, hfiles, hx.unitsOf_eq]

/-! ## Kinds and methods -/

/-- The kind and the methods that extraction gives for a file: the answers of every examiner of
the language, in every state. -/
structure ExtractsTo (t : FileTree) (lang : Language) (file : Path) (kind : Kind)
    (methods : List Method) : Prop where
  kind : ∀ x : Examiner, x.language = lang → ∀ s : ExaminerState,
    ((x.kind (.ofFiles t) file).run s).1 = .ok kind
  methods : ∀ x : Examiner, x.language = lang → ∀ s : ExaminerState,
    ((x.methods (.ofFiles t) file).run s).1 = .ok methods

variable {kind : Kind} {methods : List Method}

/-- Extraction gives methods without texts. -/
theorem ExtractsTo.plain (h : t.ExtractsTo lang file kind methods) : ∀ m ∈ methods, m.Plain :=
  (⟨lang, default⟩ : Examiner).ensures_methods (.ofFiles t) file ⟨.empty, none⟩ methods _
    (Prod.ext (h.methods ⟨lang, default⟩ rfl _) rfl)

section SelfContained

variable (hlang : lang = .java ∨ lang = .go)
include hlang

/-- In Java and in Go the answers follow from the file as it is read. -/
theorem exists_answers :
    ∃ (kindOf : SourceFile → Kind) (methodsOf : SourceFile → List Method),
      ∀ x : Examiner, x.language = lang → ∀ s file,
        x.kind s file = Examining.ofOutcome (do return kindOf (← SourceFile.read s.kept file)) ∧
        x.methods s file =
          Examining.ofOutcome (do return methodsOf (← SourceFile.read s.kept file)) := by
  rcases hlang with rfl | rfl
  · refine ⟨fun f => (JavaFile.ofSource f).kind, fun f => (JavaFile.ofSource f).extractedMethods,
      fun x hx s file => ?_⟩
    unfold Examiner.kind Examiner.methods
    rw [hx]
    exact ⟨rfl, rfl⟩
  · refine ⟨fun f => (GoFile.ofSource f).kind, fun f => (GoFile.ofSource f).extractedMethods,
      fun x hx s file => ?_⟩
    unfold Examiner.kind Examiner.methods
    rw [hx]
    exact ⟨rfl, rfl⟩

/-- An extraction that succeeds has found what extraction gives for the file, whatever else there
was to be seen. -/
theorem ensures_extract {x : Examiner} (hx : x.language = lang) (now : FileTree) (root : Path)
    (known : List String) (file : Path) :
    Ensures (fun facts => t.ExtractsTo lang file facts.kind facts.methods)
      (UnitFacts.extract x ⟨t, now⟩ root known file) := by
  obtain ⟨kindOf, methodsOf, hanswers⟩ := exists_answers hlang
  obtain ⟨hkind, hmethods⟩ := hanswers x hx ⟨t, now⟩ file
  unfold UnitFacts.extract
  rw [hkind, hmethods]
  refine (Examining.ensures_ofOutcome fun kind h => h).bind fun kind hkind => ?_
  refine (Examining.ensures_ofOutcome fun methods h => h).bind fun methods hmethods => ?_
  refine (Ensures.trivial _).bind fun parameters _ => .pure ⟨fun y hy s => ?_, fun y hy s => ?_⟩
  · rw [(hanswers y hy (.ofFiles t) file).1]
    exact hkind
  · rw [(hanswers y hy (.ofFiles t) file).2]
    exact hmethods

/-- What extraction gives for a file that is read alike in another tree is the same. -/
theorem ExtractsTo.congr (h : old.ExtractsTo lang file kind methods)
    (hread : SourceFile.read new file = SourceFile.read old file) :
    new.ExtractsTo lang file kind methods := by
  obtain ⟨kindOf, methodsOf, hanswers⟩ := exists_answers hlang
  refine ⟨fun x hx s => ?_, fun x hx s => ?_⟩
  · rw [← h.kind x hx s, (hanswers x hx (.ofFiles new) file).1,
      (hanswers x hx (.ofFiles old) file).1]
    unfold Sources.ofFiles
    rw [hread]
  · rw [← h.methods x hx s, (hanswers x hx (.ofFiles new) file).2,
      (hanswers x hx (.ofFiles old) file).2]
    unfold Sources.ofFiles
    rw [hread]

end SelfContained

end FileTree

end CodeAtlas
