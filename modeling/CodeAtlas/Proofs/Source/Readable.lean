import CodeAtlas.Proofs.Run.Extraction
import CodeAtlas.Proofs.Source.Discovered

/-!
# Files that cannot be read

A unit's facts are taken from its file. In Go they are taken from more: a parameter's type is
looked for in all files of a package, and one of them that cannot be read stops the extraction.
This file says exactly which extractions fail, in every language whose files are analyzed here.
-/

namespace CodeAtlas

open Fallible

/-! ## Sequences that succeed -/

namespace Outcome

variable {α β : Type}

theorem exists_bind_ok {x : Outcome α} {f : α → Outcome β} :
    (∃ b, (x >>= f) = .ok b) ↔ ∃ a, x = .ok a ∧ ∃ b, f a = .ok b := by
  constructor
  · rintro ⟨b, h⟩
    obtain ⟨a, ha, hb⟩ := bind_eq_ok.1 h
    exact ⟨a, ha, b, hb⟩
  · rintro ⟨a, ha, b, hb⟩
    exact ⟨b, bind_eq_ok.2 ⟨a, ha, hb⟩⟩

/-- A step that cannot fail after one that can. -/
theorem exists_bind_pure_ok {x : Outcome α} {f : α → β} :
    (∃ b, (do return f (← x)) = .ok b) ↔ ∃ a, x = .ok a :=
  exists_bind_ok.trans (exists_congr fun _ => and_iff_left ⟨_, rfl⟩)

/-- Going through a list succeeds exactly if every item does. -/
theorem exists_mapM_ok {f : α → Outcome β} {xs : List α} :
    (∃ ys, xs.mapM f = .ok ys) ↔ ∀ x ∈ xs, ∃ y, f x = .ok y := by
  induction xs with
  | nil => exact ⟨fun _ _ h => (List.not_mem_nil h).elim, fun _ => ⟨[], rfl⟩⟩
  | cons x rest ih =>
    rw [List.mapM_cons, exists_bind_ok, List.forall_mem_cons, ← ih]
    constructor
    · rintro ⟨y, hy, hrest⟩
      obtain ⟨ys, hys, -⟩ := exists_bind_ok.1 hrest
      exact ⟨⟨y, hy⟩, ys, hys⟩
    · rintro ⟨⟨y, hy⟩, ys, hys⟩
      exact ⟨y, hy, exists_bind_ok.2 ⟨ys, hys, _, rfl⟩⟩

/-- A fold succeeds exactly if every item does, where that does not depend on what came before. -/
theorem exists_foldlM_ok {f : β → α → Outcome β} {P : α → Prop} {xs : List α}
    (h : ∀ b, ∀ a ∈ xs, (∃ c, f b a = .ok c) ↔ P a) (b : β) :
    (∃ c, xs.foldlM f b = .ok c) ↔ ∀ a ∈ xs, P a := by
  induction xs generalizing b with
  | nil => exact ⟨fun _ _ h => (List.not_mem_nil h).elim, fun _ => ⟨b, rfl⟩⟩
  | cons x rest ih =>
    have hrest := fun b => ih (fun b a ha => h b a (List.mem_cons_of_mem _ ha)) b
    rw [List.foldlM_cons, exists_bind_ok, List.forall_mem_cons, ← h b x List.mem_cons_self]
    constructor
    · rintro ⟨c, hc, hlater⟩
      exact ⟨⟨c, hc⟩, (hrest c).1 hlater⟩
    · rintro ⟨⟨c, hc⟩, hlater⟩
      exact ⟨c, hc, (hrest c).2 hlater⟩

end Outcome

/-! ## Files that can be read -/

namespace FileTree

/-- Whether a path leads to a file whose bytes are a text. -/
def Readable (t : FileTree) (p : Path) : Prop :=
  ∃ content text, t.readBytes p = .ok content ∧ decodeText content = some text

/-- Whether a file can be opened as a source file. -/
def Opens (t : FileTree) (p : Path) : Prop := ∃ f, SourceFile.read t p = .ok f

end FileTree

/-- Whether files with a name are parsed: those with a suffix of the language and, in Go, all
whose names end like one. -/
def Language.Parses (l : Language) (p : Path) : Prop :=
  l.suffixes.contains p.suffix = true ∨ l = .go ∧ Text.endsWith p.name ".go" = true

namespace FileTree

variable {t : FileTree} {l : Language}

/-- Whether every source text has its syntax tree, as parsers give one for any text. -/
def Parsed (t : FileTree) (l : Language) : Prop :=
  ∀ p, l.Parses p → t.Readable p → (t.syntaxTree? p).isSome = true

/-- Where texts have trees, a source file can be opened exactly if its bytes are a text. -/
theorem Parsed.opens_iff (h : t.Parsed l) {p : Path} (hp : l.Parses p) :
    t.Opens p ↔ t.Readable p := by
  unfold Opens SourceFile.read
  constructor
  · rintro ⟨f, hf⟩
    split at hf
    · cases hf
    · next content hbytes =>
      split at hf
      · next text tree htext htree => exact ⟨content, text, hbytes, htext⟩
      · cases hf
  · intro hread
    obtain ⟨tree, htree⟩ := Option.isSome_iff_exists.1 (h p hp hread)
    obtain ⟨content, text, hbytes, htext⟩ := hread
    rw [hbytes, htree]
    dsimp only
    rw [htext]
    exact ⟨_, rfl⟩

/-- Whether the manifests on which an examiner depends tell a framework and a module. -/
structure SoundManifests (t : FileTree) (e : Examiner) (root : Path) : Prop where
  frameworks : e.language = .typescript →
    ∀ dir, ∃ framework, Framework.ofProject e.tools.limits t dir = .ok framework
  module : e.language = .go → ∃ module, GoFile.modulePath t root = .ok module

end FileTree

/-! ## Files that an extraction looks into -/

namespace GoFile

/-- The files in which a parameter's type is looked for: those of the package that its qualifier
means, or of the file's own. -/
def typeFiles (g : GoFile) (t : FileTree) (root : Path) (module written : String) : List Path :=
  match Text.splitLast? (plainType written) "." with
  | some (qualifier, _) =>
    match (g.imports.get? qualifier).bind (packageOf? module) with
    | some package => packageFiles t (packageDirectory root package)
    | none => []
  | none => packageFiles t g.path.parent

/-- The files in which the types of a file's parameters are looked for. -/
def consulted (g : GoFile) (t : FileTree) (root : Path) (module : String) : List Path :=
  g.functions.flatMap fun fn => fn.parameterTypes.flatMap (g.typeFiles t root module)

variable {t : FileTree} {root : Path}

theorem parses_of_mem_packageFiles {dir p : Path} (h : p ∈ packageFiles t dir) :
    Language.go.Parses p := by
  unfold packageFiles at h
  split at h
  · obtain ⟨name, hname, rfl⟩ := List.mem_map.1 ((sortBy_perm _ _).mem_iff.1 h)
    have hkept := (List.mem_filter.1 hname).2
    rw [Bool.and_eq_true] at hkept
    refine Or.inr ⟨rfl, ?_⟩
    rw [show (dir.child name).name = name by simp [Path.child, Path.name]]
    exact hkept.1
  · cases h

theorem parses_of_mem_consulted {g : GoFile} {module : String} {p : Path}
    (h : p ∈ g.consulted t root module) : Language.go.Parses p := by
  obtain ⟨fn, -, h⟩ := List.mem_flatMap.1 h
  obtain ⟨written, -, h⟩ := List.mem_flatMap.1 h
  unfold typeFiles at h
  split at h
  · split at h
    · exact parses_of_mem_packageFiles h
    · cases h
  · exact parses_of_mem_packageFiles h

/-- A type is looked for in all files that are given. -/
theorem exists_declaringUnit?_ok (name : String) (ps : List Path) :
    (∃ unit, declaringUnit? t root name ps = .ok unit) ↔ ∀ p ∈ ps, t.Opens p := by
  induction ps with
  | nil => exact ⟨fun _ _ h => (List.not_mem_nil h).elim, fun _ => ⟨none, rfl⟩⟩
  | cons p rest ih =>
    rw [declaringUnit?, Outcome.exists_bind_ok, List.forall_mem_cons, ← ih]
    constructor
    · rintro ⟨f, hf, hrest⟩
      obtain ⟨unit, hunit, -⟩ := Outcome.exists_bind_ok.1 hrest
      exact ⟨⟨f, hf⟩, unit, hunit⟩
    · rintro ⟨⟨f, hf⟩, unit, hunit⟩
      exact ⟨f, hf, Outcome.exists_bind_ok.2 ⟨unit, hunit, _, rfl⟩⟩

theorem exists_resolveType?_ok (g : GoFile) (module written : String) :
    (∃ unit, g.resolveType? t root module written = .ok unit) ↔
      ∀ p ∈ g.typeFiles t root module written, t.Opens p := by
  unfold resolveType? typeFiles
  dsimp only
  generalize Text.splitLast? (plainType written) "." = cut
  cases cut with
  | none => exact exists_declaringUnit?_ok (plainType written) (packageFiles t g.path.parent)
  | some cut =>
    obtain ⟨qualifier, simple⟩ := cut
    dsimp only
    cases (g.imports.get? qualifier).bind (packageOf? module) with
    | none => exact ⟨fun _ _ h => (List.not_mem_nil h).elim, fun _ => ⟨none, rfl⟩⟩
    | some package =>
      exact exists_declaringUnit?_ok simple (packageFiles t (packageDirectory root package))

/-- The parameters' units are found out exactly if all files that are looked into can be opened. -/
theorem exists_parameterTargets_ok (g : GoFile) (module : String) (known : List String) :
    (∃ targets, g.parameterTargets t root module known = .ok targets) ↔
      ∀ p ∈ g.consulted t root module, t.Opens p := by
  have hfunction (fn : GoFunction) :
      (∃ units, fn.parameterTypes.mapM (g.resolveType? t root module) = .ok units) ↔
        ∀ written ∈ fn.parameterTypes, ∀ p ∈ g.typeFiles t root module written, t.Opens p := by
    rw [Outcome.exists_mapM_ok]
    simp only [exists_resolveType?_ok]
  unfold parameterTargets
  refine (Outcome.exists_foldlM_ok (P := fun fn => ∀ written ∈ fn.parameterTypes,
    ∀ p ∈ g.typeFiles t root module written, t.Opens p) (fun targets fn _ => ?_) _).trans
      (Iff.intro ?_ ?_)
  · rw [Outcome.exists_bind_ok, ← hfunction]
    exact ⟨fun ⟨units, hunits, _⟩ => ⟨units, hunits⟩,
      fun ⟨units, hunits⟩ => ⟨units, hunits, _, rfl⟩⟩
  · intro h p hp
    obtain ⟨fn, hfn, hp⟩ := List.mem_flatMap.1 hp
    obtain ⟨written, hwritten, hp⟩ := List.mem_flatMap.1 hp
    exact h fn hfn written hwritten p hp
  · intro h fn hfn written hwritten p hp
    exact h p (List.mem_flatMap.2 ⟨fn, hfn, List.mem_flatMap.2 ⟨written, hwritten, hp⟩⟩)

end GoFile

/-! ## Extraction without programs -/

/-- The facts of a file that is analyzed here: they follow from the files alone. -/
def UnitFacts.ofFile (e : Examiner) (t : FileTree) (root : Path) (known : List String)
    (file : Path) : Outcome UnitFacts :=
  match e.language with
  | .java => do
    let j := JavaFile.ofSource (← SourceFile.read t file)
    return ⟨j.kind, j.extractedMethods, j.parameterTargets known⟩
  | .go => do
    let g := GoFile.ofSource (← SourceFile.read t file)
    let parameters ← g.parameterTargets t root (← GoFile.modulePath t root) known
    return ⟨g.kind, g.extractedMethods, parameters⟩
  | .python => do
    let m := PythonModule.ofSource (← SourceFile.read t file)
    return ⟨m.kind t, m.extractedMethods, m.parameterTargets t root known⟩
  | .typescript => do
    let a ← Examiner.analyzeModule e.tools.limits t file
    return ⟨a.kind, Examiner.moduleMethods a,
      Examiner.moduleParameterTargets t file root known a⟩

namespace Examiner

variable {e : Examiner} {t : FileTree} {root file : Path}

/-- Three questions about what one outcome gives are one question. -/
theorem ofOutcome_thrice {α : Type} (o : Outcome α) (k : α → Kind) (m : α → List Method)
    (p : α → Outcome MethodTargets) :
    (do
      let kind ← Examining.ofOutcome (do return k (← o))
      let methods ← Examining.ofOutcome (do return m (← o))
      let parameters ← Examining.ofOutcome (do p (← o))
      return ⟨kind, methods, parameters⟩ : Examining UnitFacts) =
    Examining.ofOutcome (do
      let a ← o
      let parameters ← p a
      return ⟨k a, m a, parameters⟩) := by
  cases o with
  | error f => rfl
  | ok a =>
    cases hp : p a with
    | error f =>
      simp only [bind, Except.bind, hp]
      rfl
    | ok targets =>
      simp only [bind, Except.bind, hp]
      rfl

theorem ofOutcome_map {α β : Type} (o : Outcome α) (f : α → β) :
    (do return f (← Examining.ofOutcome o)) = Examining.ofOutcome (do return f (← o)) := by
  cases o <;> rfl

theorem exists_run_ofOutcome {α : Type} (o : Outcome α) (st : ExaminerState) :
    (∃ a, (Examining.ofOutcome o).run st = (.ok a, st)) ↔ ∃ a, o = .ok a :=
  exists_congr fun _ => ⟨fun h => (Prod.mk.inj h).1, fun h => h ▸ rfl⟩

theorem moduleAnalysis_eq (he : e.analyzer = []) (s : Sources) (file : Path) :
    e.moduleAnalysis s file = Examining.ofOutcome (analyzeModule e.tools.limits s.kept file) := by
  unfold moduleAnalysis
  rw [he]
  rfl

/-- An extraction without programs gives the facts that follow from the files, in every state. -/
theorem extract_eq (he : e.analyzer = []) (t : FileTree) (root : Path) (known : List String)
    (file : Path) :
    UnitFacts.extract e (.ofFiles t) root known file =
      Examining.ofOutcome (UnitFacts.ofFile e t root known file) := by
  have hanalysis := moduleAnalysis_eq he (.ofFiles t) file
  obtain ⟨language, tools⟩ := e
  unfold UnitFacts.extract kind methods parameterTargets
  cases language with
  | java => exact ofOutcome_thrice (SourceFile.read t file) _ _ fun f => .ok _
  | go =>
    dsimp only [UnitFacts.ofFile, Sources.ofFiles]
    refine (ofOutcome_thrice (SourceFile.read t file) _ _ fun f => do
      (GoFile.ofSource f).parameterTargets t root (← GoFile.modulePath t root) known).trans ?_
    simp only [bind_assoc]
  | python => exact ofOutcome_thrice (SourceFile.read t file) _ _ fun f => .ok _
  | typescript =>
    dsimp only
    rw [hanalysis, ofOutcome_map, ofOutcome_map, ofOutcome_map]
    exact ofOutcome_thrice (analyzeModule tools.limits t file) _ _ fun a => .ok _

/-- The extraction of a unit whose file is analyzed here. -/
def extraction (e : Examiner) (t : FileTree) (root : Path) (known : List String)
    (u : SourceUnit) : Extraction :=
  ⟨u, UnitFacts.ofFile e t root known u.path⟩

/-- Whether the extraction of a file looks into another one: in Go, if the other one is among the
files in which the types of its parameters are looked for. -/
def Consults (e : Examiner) (t : FileTree) (root file other : Path) : Prop :=
  e.language = .go ∧ ∃ f module, SourceFile.read t file = .ok f ∧
    GoFile.modulePath t root = .ok module ∧
      other ∈ (GoFile.ofSource f).consulted t root module

theorem Consults.parses {other : Path} (h : e.Consults t root file other) :
    e.language.Parses other := by
  obtain ⟨hlanguage, f, module, -, -, hother⟩ := h
  rw [hlanguage]
  exact GoFile.parses_of_mem_consulted hother

/-- Only Go looks into other files. -/
theorem not_consults (h : e.language ≠ .go) (other : Path) : ¬e.Consults t root file other :=
  fun hconsults => h hconsults.1

/-- A script module is analyzed exactly if it can be opened and the manifest of its project tells a
framework. -/
theorem exists_analyzeModule_ok_iff (l : Json.Limits) (t : FileTree) (file : Path) :
    (∃ a, analyzeModule l t file = .ok a) ↔ t.Opens file ∧
      ∃ framework, Framework.ofProject l t (scriptProject t file) = .ok framework := by
  have hsetting : (∃ setting, scriptSetting l t file = .ok setting) ↔
      ∃ framework, Framework.ofProject l t (scriptProject t file) = .ok framework :=
    Outcome.exists_bind_pure_ok
  rw [← hsetting]
  unfold analyzeModule
  simp only [Outcome.exists_bind_ok]
  exact ⟨fun ⟨f, hf, setting, h, _⟩ => ⟨⟨f, hf⟩, setting, h⟩,
    fun ⟨⟨f, hf⟩, setting, h⟩ => ⟨f, hf, setting, h, _, rfl⟩⟩

theorem exists_analyzeModule_ok (ht : t.SoundManifests e root) (he : e.language = .typescript)
    (file : Path) : (∃ a, analyzeModule e.tools.limits t file = .ok a) ↔ t.Opens file :=
  (exists_analyzeModule_ok_iff _ t file).trans (and_iff_left (ht.frameworks he _))

/-- Where manifests are sound, an extraction succeeds exactly if the file can be opened, and every
other file into which it looks. -/
theorem exists_ofFile_ok (ht : t.SoundManifests e root) (known : List String)
    (file : Path) :
    (∃ facts, UnitFacts.ofFile e t root known file = .ok facts) ↔
      t.Opens file ∧ ∀ other, e.Consults t root file other → t.Opens other := by
  obtain ⟨language, tools⟩ := e
  cases language with
  | java =>
    rw [and_iff_left fun other h => (not_consults (by simp) other h).elim]
    exact Outcome.exists_bind_pure_ok
  | python =>
    rw [and_iff_left fun other h => (not_consults (by simp) other h).elim]
    exact Outcome.exists_bind_pure_ok
  | typescript =>
    rw [and_iff_left fun other h => (not_consults (by simp) other h).elim,
      ← exists_analyzeModule_ok ht rfl file]
    exact Outcome.exists_bind_pure_ok
  | go =>
    obtain ⟨module, hmodule⟩ := ht.module rfl
    refine Outcome.exists_bind_ok.trans ?_
    simp only [Outcome.exists_bind_ok, hmodule, Except.ok.injEq, exists_eq_left']
    constructor
    · rintro ⟨f, hf, targets, htargets, -⟩
      refine ⟨⟨f, hf⟩, fun other ⟨_, f', module', hf', hmodule', hother⟩ => ?_⟩
      obtain rfl : f = f' := Except.ok.inj (hf.symm.trans hf')
      obtain rfl : module = module' := Except.ok.inj (hmodule.symm.trans hmodule')
      exact (GoFile.exists_parameterTargets_ok _ _ known).1 ⟨targets, htargets⟩ other hother
    · rintro ⟨⟨f, hf⟩, hothers⟩
      obtain ⟨targets, htargets⟩ := (GoFile.exists_parameterTargets_ok (GoFile.ofSource f) module
        known).2 fun other hother => hothers other ⟨rfl, f, module, hf, hmodule, hother⟩
      exact ⟨f, hf, targets, htargets, _, rfl⟩

end Examiner

/-! ## Descriptions without programs -/

namespace Graph

variable {e : Examiner} {t : FileTree} {root repository : Path}

theorem run_extractAll (he : e.analyzer = []) (t : FileTree) (root : Path) (known : List String)
    (us : List SourceUnit) (st : ExaminerState) :
    (extractAll e (.ofFiles t) root known us).run st =
      (.ok (us.map (e.extraction t root known)), st) := by
  induction us with
  | nil => rfl
  | cons u us ih =>
    have hattempt : (UnitFacts.extract e (.ofFiles t) root known u.path).attempt.run st =
        (.ok (UnitFacts.ofFile e t root known u.path), st) := by
      rw [Examiner.extract_eq he]
      rfl
    unfold extractAll
    rw [run_bind_of_ok hattempt, run_bind_of_ok ih]
    rfl

/-- The units whose extractions fail are those whose facts do not follow from the files. -/
theorem mem_failures_extraction (t : FileTree) (root : Path) (known : List String)
    (us : List SourceUnit) (id : String) :
    id ∈ Extraction.failures (us.map (e.extraction t root known)) ↔ ∃ u ∈ us, u.identifier = id ∧
      ¬∃ facts, UnitFacts.ofFile e t root known u.path = .ok facts := by
  rw [Extraction.mem_failures]
  simp only [List.mem_map, Extraction.Raised]
  constructor
  · rintro ⟨x, ⟨u, hu, rfl⟩, hid, f, hf⟩
    refine ⟨u, hu, hid, fun ⟨facts, hfacts⟩ => ?_⟩
    cases hf.symm.trans hfacts
  · rintro ⟨u, hu, hid, hfailed⟩
    refine ⟨_, ⟨u, hu, rfl⟩, hid, ?_⟩
    cases hfacts : UnitFacts.ofFile e t root known u.path with
    | error f => exact ⟨f, hfacts⟩
    | ok facts => exact absurd ⟨facts, hfacts⟩ hfailed

section

variable {g : Graph} {found : Option (List SourceUnit)} {units : List SourceUnit}
  (he : e.analyzer = []) (hroot : e.sourceRoot (.ofFiles t) repository = .ok root)
  (hfound : unitsOrFound e (.ofFiles t) repository root found = .ok units)
  (hnodes : ∀ u ∈ units, g.contains u.identifier = true)
include he hroot hfound hnodes

/-- A description without programs extracts all units that are nodes, in a session of its own or
in one that is open. -/
theorem exists_run_extractions (st : ExaminerState) :
    ∃ after, (g.extractions e (.ofFiles t) repository found none).run st =
      (.ok (units.map (e.extraction t root g.identifiers)), after) := by
  have hunits : (wantedUnits units none).filter (fun u => g.contains u.identifier) = units :=
    List.filter_eq_self.2 hnodes
  have hinner (st : ExaminerState) : (do
      let root ← Examining.ofOutcome (e.sourceRoot (.ofFiles t) repository)
      let units ← Examining.ofOutcome (unitsOrFound e (.ofFiles t) repository root found)
      extractAll e (.ofFiles t) root g.identifiers
        ((wantedUnits units none).filter fun u => g.contains u.identifier) :
          Examining (List Extraction)).run st =
        (.ok (units.map (e.extraction t root g.identifiers)), st) := by
    rw [hroot, run_bind_of_ok (show (Examining.ofOutcome (.ok root)).run st = (.ok root, st) from
      rfl), hfound, run_bind_of_ok (show (Examining.ofOutcome (.ok units)).run st =
        (.ok units, st) from rfl), hunits]
    exact run_extractAll he t root g.identifiers units st
  unfold extractions
  rw [run_inSession]
  cases st.session with
  | some session => exact ⟨_, hinner st⟩
  | none =>
    dsimp only
    rw [hinner]
    exact ⟨_, rfl⟩

/-- A description without programs always comes to an end, and notes as failed the units whose
facts do not follow from the files. -/
theorem exists_run_describe (st : ExaminerState) :
    ∃ h failed after,
      (g.describe e (.ofFiles t) repository found none).run st = (.ok (h, failed), after) ∧
      ∀ id, id ∈ failed ↔ ∃ u ∈ units, u.identifier = id ∧
        ¬∃ facts, UnitFacts.ofFile e t root g.identifiers u.path = .ok facts := by
  obtain ⟨after, hrun⟩ := exists_run_extractions he hroot hfound hnodes st
  refine ⟨g.describedBy (units.map (e.extraction t root g.identifiers)),
    Extraction.failures (units.map (e.extraction t root g.identifiers)), after, ?_,
    mem_failures_extraction t root g.identifiers units⟩
  rw [describe_eq, run_map, hrun]
  rfl

end

end Graph

namespace Survey

variable {e : Examiner} {t : FileTree} {repository root : Path} {files : List Path}

/-- What is discovered is parsed. -/
theorem parses_of_mem_unitsOf (hfiles : e.discover (.ofFiles t) repository = .ok files)
    {u : SourceUnit} (hu : u ∈ unitsOf e t root files) : e.language.Parses u.path := by
  obtain ⟨root', -, hfiles⟩ := Outcome.bind_eq_ok.1 hfiles
  obtain ⟨p, hp, rfl⟩ := List.mem_map.1 hu
  obtain ⟨patterns, parts, rfl, -, hkeeps⟩ := FileTree.mem_of_mem_discover hfiles hp
  exact Or.inl (FileTree.suffix_fits_of_keeps hkeeps).1

/-- The units that a description of all discovered ones notes as failed: those whose files are no
texts, and those that look into a file that is no text. -/
theorem exists_run_describe_unitsOf (he : e.analyzer = [])
    (hroot : e.sourceRoot (.ofFiles t) repository = .ok root)
    (hfiles : e.discover (.ofFiles t) repository = .ok files) (hparsed : t.Parsed e.language)
    (hmanifests : t.SoundManifests e root) {g : Graph}
    (hnodes : ∀ u ∈ unitsOf e t root files, g.contains u.identifier = true)
    {found : Option (List SourceUnit)} (hfound : found = none ∨ found = unitsOf e t root files)
    (st : ExaminerState) :
    ∃ h failed after,
      (g.describe e (.ofFiles t) repository found none).run st = (.ok (h, failed), after) ∧
      ∀ id, id ∈ failed ↔ ∃ u ∈ unitsOf e t root files, u.identifier = id ∧
        (¬t.Readable u.path ∨ ∃ other, e.Consults t root u.path other ∧ ¬t.Readable other) := by
  have hunits : Graph.unitsOrFound e (.ofFiles t) repository root found =
      .ok (unitsOf e t root files) := by
    rcases hfound with rfl | rfl
    · exact Outcome.bind_eq_ok.2 ⟨files, hfiles, rfl⟩
    · rfl
  obtain ⟨h, failed, after, hrun, hfailed⟩ :=
    Graph.exists_run_describe he hroot hunits hnodes st
  refine ⟨h, failed, after, hrun, fun id => (hfailed id).trans ?_⟩
  refine exists_congr fun u => and_congr_right fun hu => and_congr_right fun _ => ?_
  rw [Examiner.exists_ofFile_ok hmanifests, hparsed.opens_iff (parses_of_mem_unitsOf hfiles hu),
    not_and_or]
  refine or_congr_right (not_forall.trans (exists_congr fun other => ?_))
  rw [Classical.not_imp]
  exact and_congr_right fun hconsults => not_congr (hparsed.opens_iff hconsults.parses)

end Survey

end CodeAtlas
