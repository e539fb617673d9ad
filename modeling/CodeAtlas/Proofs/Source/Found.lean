import CodeAtlas.Proofs.Links.Afresh
import CodeAtlas.Proofs.Source.Readable

/-!
# Surveys that come to an end

Only the examination of single files is guarded in a survey. What comes before is not: the
manifest of a script project is asked for the source root, the ignore file is read and its lines
are taken as patterns, and the files that are found are named relative to the repository. This
file says for every tree exactly when all of that succeeds; nothing else stops a survey.
-/

namespace CodeAtlas

open Fallible

namespace Outcome

variable {α β : Type}

theorem map_eq_bind (x : Outcome α) (f : α → β) : x.map f = x >>= fun a => .ok (f a) := by
  cases x <;> rfl

/-- Filtering succeeds exactly if every item can be judged. -/
theorem exists_filterM_ok {f : α → Outcome Bool} {xs : List α} :
    (∃ ys, xs.filterM f = .ok ys) ↔ ∀ x ∈ xs, ∃ keep, f x = .ok keep := by
  have hmain (acc : List α) :
      (∃ ys, List.filterAuxM f xs acc = .ok ys) ↔ ∀ x ∈ xs, ∃ keep, f x = .ok keep := by
    induction xs generalizing acc with
    | nil => exact ⟨fun _ _ h => (List.not_mem_nil h).elim, fun _ => ⟨acc, rfl⟩⟩
    | cons x rest ih =>
      rw [List.filterAuxM, exists_bind_ok, List.forall_mem_cons]
      constructor
      · rintro ⟨keep, hkeep, hrest⟩
        exact ⟨⟨keep, hkeep⟩, (ih _).1 hrest⟩
      · rintro ⟨⟨keep, hkeep⟩, hrest⟩
        exact ⟨keep, hkeep, (ih _).2 hrest⟩
  refine exists_bind_ok.trans (Iff.trans ?_ (hmain []))
  exact ⟨fun ⟨ys, hys, _⟩ => ⟨ys, hys⟩, fun ⟨ys, hys⟩ => ⟨ys, hys, _, rfl⟩⟩

end Outcome

/-! ## Files that are asked for their text -/

namespace FileTree

variable {t : FileTree} {p : Path}

/-- Whether a path leads to a file with a certain text. -/
def Holds (t : FileTree) (p : Path) (text : String) : Prop :=
  ∃ content, t.readBytes p = .ok content ∧ decodeText content = some text

/-- Whether what a path leads to is a text, if it is a file. -/
def TextIfFile (t : FileTree) (p : Path) : Prop := t.isFile p = true → t.Readable p

/-- What is made of the text of a file, or else of none, can be made exactly if the file is a text
from which it can. -/
theorem exists_ofText_ok {α : Type} (otherwise : α) (f : String → Outcome α) :
    (∃ a, (if t.isFile p = true then
        match t.readBytes p with
        | .ok content => decode content >>= f
        | .error _ => .ok otherwise
      else .ok otherwise) = .ok a) ↔
      t.TextIfFile p ∧ ∀ text, t.Holds p text → ∃ a, f text = .ok a := by
  by_cases hfile : t.isFile p = true
  · obtain ⟨content, hbytes⟩ := isFile_iff_exists_readBytes.1 hfile
    rw [if_pos hfile, hbytes]
    dsimp only
    unfold decode
    constructor
    · rintro ⟨a, ha⟩
      split at ha
      · next text htext =>
        refine ⟨fun _ => ⟨content, text, hbytes, htext⟩, fun other hother => ⟨a, ?_⟩⟩
        obtain ⟨content', hbytes', htext'⟩ := hother
        obtain rfl : content = content' := Except.ok.inj (hbytes.symm.trans hbytes')
        obtain rfl : text = other := Option.some.inj (htext.symm.trans htext')
        exact ha
      · cases ha
    · rintro ⟨hreadable, hall⟩
      obtain ⟨content', text, hbytes', htext⟩ := hreadable hfile
      obtain rfl : content = content' := Except.ok.inj (hbytes.symm.trans hbytes')
      rw [htext]
      exact hall text ⟨content, hbytes, htext⟩
  · rw [if_neg hfile]
    refine ⟨fun _ => ⟨fun h => absurd h hfile, ?_⟩, fun _ => ⟨otherwise, rfl⟩⟩
    rintro text ⟨content, hbytes, -⟩
    exact absurd (isFile_of_readBytes hbytes) hfile

end FileTree

/-! ## Manifests -/

namespace Json

/-- Whether a value is a pair whose first item may name a package: it is no list and no object. -/
def IsPackagePair (v : Json) : Prop :=
  ∃ name version, v.elements = .ok [name, version] ∧
    (∀ items, name ≠ .array items) ∧ ∀ fields, name ≠ .object fields

/-- Whether a value lists packages: an object, or a value all of whose items are pairs. -/
def ListsPackages (v : Json) : Prop :=
  (∃ fields, v = .object fields) ∨ ∃ items, v.elements = .ok items ∧ ∀ i ∈ items, i.IsPackagePair

end Json

namespace Framework

theorem exists_packageOfPair_ok (v : Json) :
    (∃ package, packageOfPair v = .ok package) ↔ v.IsPackagePair := by
  unfold packageOfPair Json.IsPackagePair
  rw [Outcome.exists_bind_ok]
  constructor
  · rintro ⟨items, hitems, package, hpackage⟩
    split at hpackage
    · next name version => exact ⟨_, version, hitems, nofun, nofun⟩
    · cases hpackage
    · cases hpackage
    · next name version hnames harray hobject =>
      exact ⟨name, version, hitems, harray, hobject⟩
    · cases hpackage
  · rintro ⟨name, version, hitems, harray, hobject⟩
    refine ⟨_, hitems, ?_⟩
    cases name with
    | array items => exact absurd rfl (harray items)
    | object fields => exact absurd rfl (hobject fields)
    | string s => exact ⟨some s, rfl⟩
    | null | bool | int | decimal => exact ⟨none, rfl⟩

theorem exists_packagesOf_ok (v : Json) :
    (∃ packages, packagesOf v = .ok packages) ↔ v.ListsPackages := by
  have hlist (h : ∀ fields, v ≠ .object fields) :
      (∃ packages, packagesOf v = .ok packages) ↔
        ∃ items, v.elements = .ok items ∧ ∀ i ∈ items, i.IsPackagePair := by
    have hdefinition : packagesOf v =
        (do return (← (← v.elements).mapM packageOfPair).filterMap id) := by
      cases v with
      | object fields => exact absurd rfl (h fields)
      | null | bool | int | decimal | string | array => rfl
    rw [hdefinition, Outcome.exists_bind_ok]
    refine exists_congr fun items => and_congr_right fun _ => ?_
    rw [Outcome.exists_bind_ok]
    simp only [← exists_packageOfPair_ok]
    rw [← Outcome.exists_mapM_ok]
    exact ⟨fun ⟨ps, hps, _⟩ => ⟨ps, hps⟩, fun ⟨ps, hps⟩ => ⟨ps, hps, _, rfl⟩⟩
  unfold Json.ListsPackages
  by_cases hobject : ∃ fields, v = .object fields
  · obtain ⟨fields, rfl⟩ := hobject
    exact ⟨fun _ => Or.inl ⟨fields, rfl⟩, fun _ => ⟨_, rfl⟩⟩
  · rw [hlist fun fields h => hobject ⟨fields, h⟩, or_iff_right hobject]

/-- The fields of a manifest that list packages. -/
def listingFields : List String := ["dependencies", "devDependencies"]

/-- Whether a manifest's fields list packages where they are not empty. -/
def Listed (fields : List (String × Json)) : Prop :=
  ∀ name ∈ listingFields, ∀ v, (Json.object fields).field? name = some v →
    v.isTruthy = true → v.ListsPackages

theorem exists_listedPackages_ok (manifest : Json) (field : String) :
    (∃ packages, listedPackages manifest field = .ok packages) ↔
      ∀ v, manifest.field? field = some v → v.isTruthy = true → v.ListsPackages := by
  unfold listedPackages
  cases manifest.field? field with
  | none => exact ⟨fun _ v h => (nomatch h), fun _ => ⟨[], rfl⟩⟩
  | some v =>
    dsimp only
    by_cases htruthy : v.isTruthy = true
    · rw [if_pos htruthy, exists_packagesOf_ok]
      exact ⟨fun h w hw _ => Option.some.inj hw ▸ h, fun h => h v rfl htruthy⟩
    · rw [if_neg htruthy]
      refine ⟨fun _ w hw hw' => ?_, fun _ => ⟨[], rfl⟩⟩
      obtain rfl : v = w := Option.some.inj hw
      exact absurd hw' htruthy

/-- A text tells a framework unless it is nested too deeply, or an object that lists something else
than packages. -/
theorem exists_ofManifest_ok (l : Json.Limits) (text : String) :
    (∃ framework, ofManifest l text = .ok framework) ↔
      (∀ opened, Json.readWithin String l text ≠ .error (.nestedTooDeeply opened)) ∧
        ∀ fields, Json.readWithin String l text = .ok (.object fields) → Listed fields := by
  unfold ofManifest
  split
  · next fields hread =>
    have hboth : (∃ framework, (do
        let own ← listedPackages (.object fields) "dependencies"
        let development ← listedPackages (.object fields) "devDependencies"
        return ofPackages (own ++ development) : Outcome Framework) = .ok framework) ↔
          Listed fields := by
      rw [Outcome.exists_bind_ok]
      simp only [Outcome.exists_bind_ok]
      unfold Listed listingFields
      rw [List.forall_mem_cons, List.forall_mem_singleton, ← exists_listedPackages_ok,
        ← exists_listedPackages_ok]
      exact ⟨fun ⟨own, hown, development, hdevelopment, _⟩ =>
          ⟨⟨own, hown⟩, development, hdevelopment⟩,
        fun ⟨⟨own, hown⟩, development, hdevelopment⟩ =>
          ⟨own, hown, development, hdevelopment, _, rfl⟩⟩
    rw [hboth, hread, and_iff_right (by exact nofun)]
    simp only [Except.ok.injEq, Json.object.injEq, forall_eq']
  · next opened hdeep =>
    exact ⟨fun ⟨_, h⟩ => (nomatch h), fun h => absurd hdeep (h.1 opened)⟩
  · next hobject hdeep =>
    exact ⟨fun _ => ⟨hdeep, fun fields hfields => absurd hfields (hobject fields)⟩,
      fun _ => ⟨_, rfl⟩⟩

end Framework

/-- Whether a project's manifest tells a framework: there is none, or it is a text that is not
nested too deeply, and whose fields list packages if it is an object. -/
structure FileTree.TellsFramework (t : FileTree) (l : Json.Limits) (dir : Path) : Prop where
  text : t.TextIfFile (dir.child Framework.manifestName)
  shallow : ∀ text opened, t.Holds (dir.child Framework.manifestName) text →
    Json.readWithin String l text ≠ .error (.nestedTooDeeply opened)
  listed : ∀ text fields, t.Holds (dir.child Framework.manifestName) text →
    Json.readWithin String l text = .ok (.object fields) → Framework.Listed fields

namespace Framework

variable {t : FileTree} {l : Json.Limits} {dir : Path}

theorem exists_ofProject_ok :
    (∃ framework, ofProject l t dir = .ok framework) ↔ t.TellsFramework l dir := by
  refine (FileTree.exists_ofText_ok (unknown .empty) (ofManifest l)).trans ?_
  simp only [exists_ofManifest_ok]
  exact ⟨fun ⟨htext, htells⟩ => ⟨htext, fun text opened h => (htells text h).1 opened,
      fun text fields h => (htells text h).2 fields⟩,
    fun ⟨htext, hshallow, hlisted⟩ => ⟨htext, fun text h =>
      ⟨fun opened => hshallow text opened h, fun fields => hlisted text fields h⟩⟩⟩

/-- A manifest that is no object is as none. -/
theorem ofProject_eq_unknown (htells : t.TellsFramework l dir)
    (hobject : ∀ text fields, t.Holds (dir.child manifestName) text →
      Json.readWithin String l text ≠ .ok (.object fields)) :
    ofProject l t dir = .ok (unknown .empty) := by
  unfold ofProject
  dsimp only
  split
  · next hfile =>
    obtain ⟨content, text, hbytes, hdecoded⟩ := htells.text hfile
    have hholds : t.Holds (dir.child manifestName) text := ⟨content, hbytes, hdecoded⟩
    rw [hbytes]
    dsimp only
    unfold FileTree.decode
    rw [hdecoded]
    change ofManifest l text = _
    unfold ofManifest
    split
    · next fields hread => exact absurd hread (hobject text fields hholds)
    · next opened hdeep => exact absurd hdeep (htells.shallow text opened hholds)
    · rfl
  · rfl

end Framework

theorem GoFile.exists_modulePath_ok {t : FileTree} {root : Path} :
    (∃ module, modulePath t root = .ok module) ↔ t.TextIfFile (root.child "go.mod") := by
  unfold modulePath
  simp only [Outcome.map_eq_bind]
  refine (FileTree.exists_ofText_ok "" _).trans (and_iff_left fun text _ => ⟨_, rfl⟩)

/-- What follows from a file and its module is found out exactly if the file can be opened and the
manifest, if there is one, is a text. -/
theorem GoFile.exists_read_modulePath_ok {α : Type} {t : FileTree} {root file : Path}
    (k : SourceFile → String → α) :
    (∃ a, (do
      let f ← SourceFile.read t file
      return k f (← modulePath t root)) = .ok a) ↔
        t.Opens file ∧ t.TextIfFile (root.child "go.mod") := by
  rw [← exists_modulePath_ok, Outcome.exists_bind_ok]
  refine (exists_congr fun f => and_congr_right fun _ => Outcome.exists_bind_pure_ok).trans ?_
  exact exists_and_right

/-! ## Ignore files -/

namespace Ignore

variable {t : FileTree}

/-- The name of a repository's ignore file. -/
def fileName : String := ".gitignore"

theorem exists_load_ok {dir : Path} :
    (∃ lines, load t dir = .ok lines) ↔ t.TextIfFile (dir.child fileName) := by
  unfold load
  simp only [Outcome.map_eq_bind]
  refine (FileTree.exists_ofText_ok [] _).trans (and_iff_left fun text _ => ⟨_, rfl⟩)

/-- Whether a file is skipped by its name or by those of the directories around it. -/
def SkipsByName (path : Path) (extra : List String) : Prop :=
  (∃ d ∈ path.parts.dropLast, isIgnoredDirectory d extra = true) ∨ isIgnoredFile path.name = true

variable (compile : List String → Outcome (String → Bool))

/-- Whether the lines of an ignore file have a meaning as patterns. -/
def Meaningful (lines : List String) : Prop := ∃ ignores, meaning compile lines = .ok ignores

/-- Patterns without meaning matter for the files that are not skipped by their names. -/
theorem exists_shouldIgnore_ok (path : Path) (lines extra : List String) :
    (∃ skip, shouldIgnore compile path lines extra = .ok skip) ↔
      SkipsByName path extra ∨ Meaningful compile lines := by
  unfold shouldIgnore SkipsByName
  by_cases hdirectory : (path.parts.dropLast.any fun d => isIgnoredDirectory d extra) = true
  · rw [if_pos hdirectory]
    exact ⟨fun _ => Or.inl (Or.inl (List.any_eq_true.1 hdirectory)), fun _ => ⟨true, rfl⟩⟩
  · rw [if_neg hdirectory, or_iff_right fun h => hdirectory (List.any_eq_true.2 h)]
    by_cases hfile : isIgnoredFile path.name = true
    · rw [if_pos hfile]
      exact ⟨fun _ => Or.inl hfile, fun _ => ⟨true, rfl⟩⟩
    · rw [if_neg hfile, or_iff_right hfile]
      exact Outcome.exists_bind_pure_ok

end Ignore

/-! ## Walks -/

/-- A met file can be judged if its name is not wanted, or else lies in the repository and is
skipped by its name or compared with patterns that all have a meaning. -/
theorem DiscoveryRule.exists_keeps_ok (r : DiscoveryRule) (t : FileTree) (repository : Path)
    (lines parts : List String) :
    (∃ keep, r.keeps t repository lines parts = .ok keep) ↔
      (r.suffixes.contains (Path.suffix ⟨true, parts⟩) = true →
        ∃ relative, Path.relativeTo? ⟨true, parts⟩ repository = some relative ∧
          (Ignore.SkipsByName (Path.relative relative) r.extraDirectories ∨
            Ignore.Meaningful r.compile lines)) := by
  unfold keeps
  dsimp only
  by_cases hsuffix : r.suffixes.contains (Path.suffix ⟨true, parts⟩) = true
  · rw [if_neg (by simpa using hsuffix), forall_prop_of_true hsuffix]
    cases Path.relativeTo? ⟨true, parts⟩ repository with
    | none => exact ⟨fun ⟨_, h⟩ => (nomatch h), fun ⟨_, h, _⟩ => (nomatch h)⟩
    | some relative =>
      dsimp only
      rw [Outcome.exists_bind_ok]
      simp only [Option.some.injEq, exists_eq_left', ← Ignore.exists_shouldIgnore_ok]
      refine ⟨fun ⟨skip, hskip, _⟩ => ⟨skip, hskip⟩, fun ⟨skip, hskip⟩ => ⟨skip, hskip, ?_⟩⟩
      cases skip with
      | true => exact ⟨false, rfl⟩
      | false => exact ⟨_, rfl⟩
  · rw [if_pos (by simpa using hsuffix)]
    exact ⟨fun _ h => absurd h hsuffix, fun _ => ⟨false, rfl⟩⟩

namespace Examiner

variable {e : Examiner} {t : FileTree} {repository : Path}

/-- What an examiner keeps of the files that its walk meets. -/
def rule (e : Examiner) : DiscoveryRule :=
  ⟨e.language.suffixes, e.excludedDirectories, none, DiscoveryRule.defaultMaxSize,
    e.tools.compile⟩

/-- Whether sources are looked for below a root, which has to be a directory. -/
def Walks (e : Examiner) (t : FileTree) (repository root : Path) : Prop :=
  e.sourceRoot (.ofFiles t) repository = .ok root ∧ t.isDirectory (t.resolve root) = true

/-- Whether the walk meets a file with a suffix of the language. -/
def Meets (e : Examiner) (t : FileTree) (repository : Path) (parts : List String) : Prop :=
  ∃ root, e.Walks t repository root ∧
    parts ∈ t.walk e.rule (t.nodes.size + 1) (t.resolve root).parts ∧
    e.language.suffixes.contains (Path.suffix ⟨true, parts⟩) = true

/-- Whether nothing keeps an examiner from finding the source files of a repository. -/
structure Finds (e : Examiner) (t : FileTree) (repository : Path) : Prop where
  /-- The manifest of a script project tells a framework. -/
  manifest : e.language = .typescript → t.TellsFramework e.tools.limits repository
  /-- The ignore file is a text, if sources are looked for at all. -/
  ignoreFile : ∀ root, e.Walks t repository root →
    t.TextIfFile ((t.resolve repository).child Ignore.fileName)
  /-- What the walk meets lies in the repository. -/
  within : ∀ parts, e.Meets t repository parts →
    ∃ relative, Path.relativeTo? ⟨true, parts⟩ (t.resolve repository) = some relative
  /-- The lines of the ignore file have a meaning, if a file is compared with them. -/
  patterns : ∀ parts relative lines, e.Meets t repository parts →
    Path.relativeTo? ⟨true, parts⟩ (t.resolve repository) = some relative →
    ¬Ignore.SkipsByName (Path.relative relative) e.excludedDirectories →
    Ignore.load t (t.resolve repository) = .ok lines → Ignore.Meaningful e.tools.compile lines

/-- Whether nothing stops the survey of a repository. -/
structure Unhindered (e : Examiner) (t : FileTree) (repository : Path) : Prop
    extends e.Finds t repository where
  /-- No source file is a link that leads out of the repository. -/
  links : ∀ files, e.discover (.ofFiles t) repository = .ok files → ∀ p ∈ files,
    ∃ relative, (t.resolve p).relativeTo? (t.resolve repository) = some relative

theorem exists_sourceRoot_ok :
    (∃ root, e.sourceRoot (.ofFiles t) repository = .ok root) ↔
      (e.language = .typescript → t.TellsFramework e.tools.limits repository) := by
  obtain ⟨language, tools⟩ := e
  unfold sourceRoot
  cases language with
  | java | go | python => exact ⟨fun _ h => (nomatch h), fun _ => ⟨_, rfl⟩⟩
  | typescript =>
    simp only [forall_const, ← Framework.exists_ofProject_ok]
    exact Outcome.exists_bind_pure_ok

/-- The files below a root can be found exactly if the root is no directory, or the ignore file is
a text and every met file can be judged. -/
theorem exists_discover_ok (e : Examiner) (t : FileTree) (repository root : Path) :
    (∃ files, t.discover repository root e.rule = .ok files) ↔
      (t.isDirectory (t.resolve root) = true →
        ∃ lines, Ignore.load t (t.resolve repository) = .ok lines ∧
          ∀ parts ∈ t.walk e.rule (t.nodes.size + 1) (t.resolve root).parts,
            ∃ keep, e.rule.keeps t (t.resolve repository) lines parts = .ok keep) := by
  unfold FileTree.discover
  dsimp only
  by_cases hdirectory : t.isDirectory (t.resolve root) = true
  · rw [if_neg (by simpa using hdirectory), forall_prop_of_true hdirectory]
    have hpatterns : e.rule.patterns = none := rfl
    rw [hpatterns]
    dsimp only
    rw [Outcome.exists_bind_ok]
    refine exists_congr fun lines => and_congr_right fun _ => ?_
    rw [Outcome.exists_bind_ok, ← Outcome.exists_filterM_ok]
    exact ⟨fun ⟨kept, hkept, _⟩ => ⟨kept, hkept⟩, fun ⟨kept, hkept⟩ => ⟨kept, hkept, _, rfl⟩⟩
  · rw [if_pos (by simpa using hdirectory)]
    exact ⟨fun _ h => absurd h hdirectory, fun _ => ⟨[], rfl⟩⟩

/-- Where nothing is in the way, the source files are found. -/
theorem Finds.exists_discover (h : e.Finds t repository) :
    ∃ files, e.discover (.ofFiles t) repository = .ok files := by
  obtain ⟨root, hroot⟩ := exists_sourceRoot_ok.2 h.manifest
  obtain ⟨files, hfiles⟩ := (exists_discover_ok e t repository root).2
    fun hdirectory => by
      have hwalks : e.Walks t repository root := ⟨hroot, hdirectory⟩
      obtain ⟨lines, hlines⟩ := Ignore.exists_load_ok.2 (h.ignoreFile root hwalks)
      refine ⟨lines, hlines, fun parts hparts => ?_⟩
      refine (e.rule.exists_keeps_ok t _ lines parts).2 fun hsuffix => ?_
      have hmeets : e.Meets t repository parts := ⟨root, hwalks, hparts, hsuffix⟩
      obtain ⟨relative, hrelative⟩ := h.within parts hmeets
      refine ⟨relative, hrelative, or_iff_not_imp_left.2 fun hnamed => ?_⟩
      exact h.patterns parts relative lines hmeets hrelative hnamed hlines
  exact ⟨files, Outcome.bind_eq_ok.2 ⟨root, hroot, hfiles⟩⟩

/-- Where the source files are found, nothing has been in the way. -/
theorem finds_of_discover {files : List Path}
    (hfiles : e.discover (.ofFiles t) repository = .ok files) : e.Finds t repository := by
  obtain ⟨root, hroot, hfound⟩ := Outcome.bind_eq_ok.1 hfiles
  have hjudged := (exists_discover_ok e t repository root).1 ⟨files, hfound⟩
  have hwalked {other : Path} (h : e.Walks t repository other) :
      root = other ∧ t.isDirectory (t.resolve root) = true := by
    obtain rfl : root = other := Except.ok.inj (hroot.symm.trans h.1)
    exact ⟨rfl, h.2⟩
  have hmet {parts : List String} (h : e.Meets t repository parts) :
      ∃ lines, Ignore.load t (t.resolve repository) = .ok lines ∧
        ∃ relative, Path.relativeTo? ⟨true, parts⟩ (t.resolve repository) = some relative ∧
          (Ignore.SkipsByName (Path.relative relative) e.excludedDirectories ∨
            Ignore.Meaningful e.tools.compile lines) := by
    obtain ⟨other, hwalks, hparts, hsuffix⟩ := h
    obtain ⟨rfl, hdirectory⟩ := hwalked hwalks
    obtain ⟨lines, hlines, hkeeps⟩ := hjudged hdirectory
    exact ⟨lines, hlines, (e.rule.exists_keeps_ok t _ lines parts).1 (hkeeps parts hparts)
      hsuffix⟩
  refine ⟨exists_sourceRoot_ok.1 ⟨root, hroot⟩, ?_, ?_, ?_⟩
  · intro other hwalks
    obtain ⟨lines, hlines, -⟩ := hjudged (hwalked hwalks).2
    exact Ignore.exists_load_ok.1 ⟨lines, hlines⟩
  · intro parts h
    obtain ⟨-, -, relative, hrelative, -⟩ := hmet h
    exact ⟨relative, hrelative⟩
  · intro parts relative lines h hrelative hnamed hlines
    obtain ⟨lines', hlines', relative', hrelative', hjudge⟩ := hmet h
    obtain rfl : lines = lines' := Except.ok.inj (hlines.symm.trans hlines')
    obtain rfl : relative = relative' := Option.some.inj (hrelative.symm.trans hrelative')
    exact hjudge.resolve_left hnamed

/-- Nothing stops a survey exactly if files are discovered none of which leads elsewhere. -/
theorem unhindered_iff :
    e.Unhindered t repository ↔ ∃ files, e.discover (.ofFiles t) repository = .ok files ∧
      ∀ p ∈ files, ∃ relative,
        (t.resolve p).relativeTo? (t.resolve repository) = some relative := by
  constructor
  · intro h
    obtain ⟨files, hfiles⟩ := h.toFinds.exists_discover
    exact ⟨files, hfiles, h.links files hfiles⟩
  · rintro ⟨files, hfiles, hinside⟩
    refine ⟨finds_of_discover hfiles, fun others hothers => ?_⟩
    obtain rfl : files = others := Except.ok.inj (hfiles.symm.trans hothers)
    exact hinside

end Examiner

/-! ## Surveys -/

theorem SourceUnit.exists_relativePath_ok {t : FileTree} {repository : Path} {u : SourceUnit} :
    (∃ file, u.relativePath t repository = .ok file) ↔
      ∃ relative, (t.resolve u.path).relativeTo? (t.resolve repository) = some relative := by
  unfold relativePath
  cases (t.resolve u.path).relativeTo? (t.resolve repository) with
  | none => exact ⟨fun ⟨_, h⟩ => (nomatch h), fun ⟨_, h⟩ => (nomatch h)⟩
  | some relative => exact ⟨fun _ => ⟨relative, rfl⟩, fun _ => ⟨_, rfl⟩⟩

namespace Survey

variable {e : Examiner} {t : FileTree} {repository : Path}

/-- A survey succeeds exactly if nothing is in its way, whatever the source files hold. -/
theorem exists_run_take_ok (st : ExaminerState) :
    (∃ s after, (take e t repository).run st = (.ok s, after)) ↔ e.Unhindered t repository := by
  rw [Examiner.unhindered_iff]
  constructor
  · rintro ⟨s, after, hrun⟩
    have hcovers := ensures_take_covers e t repository st s after hrun
    obtain ⟨root, files, -, hfiles, hunits⟩ := hcovers.found
    refine ⟨files, hfiles, fun p hp => ?_⟩
    have hu : (⟨p, e.identifier t p root⟩ : SourceUnit) ∈ s.units :=
      hunits ▸ List.mem_map_of_mem hp
    exact SourceUnit.exists_relativePath_ok.1 (hcovers.nodes.inside _ hu)
  · rintro ⟨files, hfiles, hinside⟩
    obtain ⟨root, hroot, -⟩ := Outcome.bind_eq_ok.1 hfiles
    refine succeeds_take hroot hfiles (fun u hu => ?_) st
    obtain ⟨p, hp, rfl⟩ := List.mem_map.1 hu
    exact SourceUnit.exists_relativePath_ok.2 (hinside p hp)

theorem exists_run_take_error (h : ¬∃ files, e.discover (.ofFiles t) repository = .ok files)
    (st : ExaminerState) :
    ∃ f after, (take e t repository).run st = (.error f, after) := by
  rcases hrun : (take e t repository).run st with ⟨f | s, after⟩
  · exact ⟨f, after, rfl⟩
  · exact absurd ((exists_run_take_ok st).1 ⟨s, after, hrun⟩).toFinds.exists_discover h

end Survey

end CodeAtlas
