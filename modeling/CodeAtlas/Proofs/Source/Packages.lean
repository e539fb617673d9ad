import CodeAtlas.Ignore.Patterns
import CodeAtlas.Proofs.Source.Found
import CodeAtlas.Proofs.Source.Identified

/-!
# Packages that a Go file imports

A file depends on all files of the packages that it imports. Imports are kept by the names under
which they are used, and a file belongs to a package if its identifier begins with the dotted name
of the package. This file says which files are found that way, and when these are exactly the files
in the directories of the imported packages.
-/

namespace CodeAtlas

/-! ## Pairs stored under their names -/

namespace Dict

variable {α β : Type} [DecidableEq α]

theorem ofList_concat (pairs : List (α × β)) (e : α × β) :
    ofList (pairs ++ [e]) = (ofList pairs).insert e.1 e.2 := by
  unfold ofList
  rw [List.foldl_concat]

/-- Under a key stands what was stored there last. -/
theorem get?_ofList (pairs : List (α × β)) (k : α) :
    (ofList pairs).get? k = ((pairs.filter fun e => e.1 = k).getLast?).map (·.2) := by
  induction pairs using List.reverseRecOn with
  | nil => rfl
  | append_singleton pairs e ih =>
    rw [ofList_concat, get?_insert, ih, List.filter_append]
    by_cases hk : e.1 = k
    · simp [hk]
    · rw [if_neg (Ne.symm hk), List.filter_cons_of_neg (by simpa using hk), List.filter_nil,
        List.append_nil]

theorem nodup_keys_ofList (pairs : List (α × β)) : (ofList pairs).keys.Nodup := by
  induction pairs using List.reverseRecOn with
  | nil => exact List.nodup_nil
  | append_singleton pairs e ih =>
    rw [ofList_concat]
    exact nodup_keys_insert ih e.1 e.2

end Dict

namespace GoFile

/-! ## Imported packages -/

/-- The imports of a file in source order, each as the name under which it is used and its path. -/
def importSpecs (f : SourceFile) : List (String × String) :=
  ((f.tree.namedChildren.filter (·.type == "import_declaration")).flatMap fun c =>
    c.descendants ["import_spec"]).filterMap (importOf? f)

theorem imports_ofSource (f : SourceFile) : (ofSource f).imports = Dict.ofList (importSpecs f) :=
  rfl

/-- Whether an import is the last one that is used under its name. -/
def IsLast (specs : List (String × String)) (spec : String × String) : Prop :=
  (specs.filter fun other => other.1 = spec.1).getLast? = some spec

theorem IsLast.mem {specs : List (String × String)} {spec : String × String}
    (h : IsLast specs spec) : spec ∈ specs :=
  (List.mem_filter.1 (List.mem_of_getLast? h)).1

/-- Under every name that is used there is a last import. -/
theorem exists_isLast {specs : List (String × String)} {spec : String × String}
    (h : spec ∈ specs) : ∃ last, IsLast specs last ∧ last.1 = spec.1 := by
  have hmem : spec ∈ specs.filter fun other => other.1 = spec.1 :=
    List.mem_filter.2 ⟨h, decide_eq_true rfl⟩
  have hlast := List.getLast?_eq_some_getLast (List.ne_nil_of_mem hmem)
  have hname := of_decide_eq_true (List.mem_filter.1 (List.mem_of_getLast? hlast)).2
  exact ⟨_, by rw [IsLast, hname, hlast], hname⟩

/-- The paths that are kept are those of the last imports. -/
theorem mem_values_imports (f : SourceFile) (path : String) :
    path ∈ (ofSource f).imports.values ↔ ∃ spec, IsLast (importSpecs f) spec ∧ spec.2 = path := by
  rw [imports_ofSource, Dict.mem_values_iff (Dict.nodup_keys_ofList _)]
  simp only [Dict.get?_ofList, Option.map_eq_some_iff]
  constructor
  · rintro ⟨name, spec, hspec, hpath⟩
    have hname := of_decide_eq_true (List.mem_filter.1 (List.mem_of_getLast? hspec)).2
    exact ⟨spec, by rw [IsLast, hname, hspec], hpath⟩
  · rintro ⟨spec, hspec, hpath⟩
    exact ⟨spec.1, spec, hspec, hpath⟩

/-- The components of an imported package's directory below the directory of the module; nothing
for packages that are not in the module. -/
def packagePlace? (module importPath : String) : Option (List String) :=
  if module = "" then none
  else if importPath = module then some []
  else if Text.startsWith importPath (module ++ "/") then
    some (Text.split (Text.dropChars importPath (module.length + 1)) '/')
  else none

/-- The dotted name of a package joins the components of its directory. -/
theorem packageOf?_eq (module importPath : String) :
    packageOf? module importPath = (packagePlace? module importPath).map (Text.join ".") := by
  unfold packageOf? packagePlace?
  split
  · rfl
  · split
    · rfl
    · split
      · exact congrArg some (Text.replaceChar_eq_join _ '/' ".")
      · rfl

/-- The dotted package of an identifier joins its words but for the last one. -/
theorem packageOfIdentifier_eq (id : String) :
    packageOfIdentifier id = Text.join "." (Text.split id '.').dropLast := by
  unfold packageOfIdentifier
  cases hcut : Text.splitLast? id "." with
  | none =>
    rw [Text.split_of_not_mem ((Text.splitLast?_eq_none Text.toList_dot).1 hcut)]
    rfl
  | some cut =>
    rw [Text.split_of_splitLast? Text.toList_dot hcut, List.dropLast_concat,
      Text.join_split Text.toList_dot]

/-- A file depends on the known units of which the dotted package is one that is imported last under
some name. -/
theorem mem_dependencies_ofSource (f : SourceFile) (module own : String) (known : List String)
    (id : String) :
    id ∈ (ofSource f).dependencies module own known ↔ id ≠ own ∧ id ∈ known ∧
      ∃ spec, IsLast (importSpecs f) spec ∧ ∃ place, packagePlace? module spec.2 = some place ∧
        Text.join "." place = Text.join "." (Text.split id '.').dropLast := by
  unfold dependencies firstOccurrences
  rw [List.mem_filter, mem_foldl_appendNew, decide_eq_true_iff, and_comm]
  refine and_congr_right fun _ => ?_
  simp only [List.not_mem_nil, false_or, List.mem_flatMap, List.mem_filterMap, List.mem_filter,
    decide_eq_true_iff, packageOfIdentifier_eq, packageOf?_eq, Option.map_eq_some_iff,
    mem_values_imports]
  constructor
  · rintro ⟨_, ⟨_, ⟨spec, hspec, rfl⟩, place, hplace, rfl⟩, hid, hwords⟩
    exact ⟨hid, spec, hspec, place, hplace, hwords.symm⟩
  · rintro ⟨hid, spec, hspec, place, hplace, hwords⟩
    exact ⟨_, ⟨_, ⟨spec, hspec, rfl⟩, place, hplace, rfl⟩, hid, hwords.symm⟩

/-! ## Files of a package -/

/-- Whether a file lies in a directory below a root under a name, once links are followed. -/
def LiesIn (t : FileTree) (root file : Path) (directory : List String) (name : String) : Prop :=
  (t.resolve file).relativeTo? (t.resolve root) = some (directory ++ [name])

/-- Whether a component of a path is not empty and holds no dots. -/
def IsPlain (part : String) : Prop := part ≠ "" ∧ '.' ∉ part.toList

instance : DecidablePred IsPlain := fun part =>
  inferInstanceAs (Decidable (part ≠ "" ∧ '.' ∉ part.toList))

/-- The dotted package of a file whose name holds no dot but that of the suffix is its directory. -/
theorem join_wordsOf {tools : Tooling} {t : FileTree} {root file : Path}
    {directory : List String} {name : String} (h : LiesIn t root file directory name)
    (hstem : '.' ∉ (Text.beforeLast name ".").toList) :
    Text.join "." (Examiner.wordsOf ⟨.go, tools⟩ t root file).dropLast =
      Text.join "." directory := by
  have hwords : Examiner.wordsOf ⟨.go, tools⟩ t root file =
      (directory.flatMap fun p => Text.split p '.') ++ [Text.beforeLast name "."] := by
    unfold Examiner.wordsOf
    rw [h]
    change wordsOfPath (directory ++ [name]) = _
    unfold wordsOfPath
    rw [List.dropLast_concat, List.getLast?_concat, Option.getD_some, List.flatMap_append,
      List.flatMap_singleton, Text.split_of_not_mem hstem]
  rw [hwords, List.dropLast_concat, Text.join_flatMap_split rfl]

/-- Whether nothing in the imports of a file and the names of the files around it can be mistaken:
imports under one name have one path, and no directory, imported or of a file, and no file's stem
has a name with a dot in it. -/
structure Unambiguous (t : FileTree) (root : Path) (module : String) (files : List Path)
    (specs : List (String × String)) : Prop where
  imports : ∀ spec ∈ specs, ∀ other ∈ specs, other.1 = spec.1 → other.2 = spec.2
  packages : ∀ spec ∈ specs, ∀ place ∈ packagePlace? module spec.2, ∀ part ∈ place, IsPlain part
  files : ∀ g ∈ files, ∃ directory name, LiesIn t root g directory name ∧
    (∀ part ∈ directory, IsPlain part) ∧ '.' ∉ (Text.beforeLast name ".").toList

/-- Where nothing can be mistaken, a file has the dotted package of an import that is the last under
its name exactly if the file's directory is the directory of an imported package. -/
theorem Unambiguous.iff {tools : Tooling} {t : FileTree} {root g : Path} {module : String}
    {files : List Path} {specs : List (String × String)}
    (h : Unambiguous t root module files specs) (hg : g ∈ files) :
    (∃ spec, IsLast specs spec ∧ ∃ place, packagePlace? module spec.2 = some place ∧
      Text.join "." place =
        Text.join "." (Examiner.wordsOf ⟨.go, tools⟩ t root g).dropLast) ↔
    ∃ directory name, LiesIn t root g directory name ∧
      ∃ spec ∈ specs, packagePlace? module spec.2 = some directory := by
  obtain ⟨directory, name, hlies, hdirectory, hstem⟩ := h.files g hg
  rw [join_wordsOf hlies hstem]
  constructor
  · rintro ⟨spec, hspec, place, hplace, hjoined⟩
    have hparts := h.packages spec hspec.mem place hplace
    obtain rfl := Text.join_injective Text.toList_dot hparts hdirectory hjoined
    exact ⟨place, name, hlies, spec, hspec.mem, hplace⟩
  · rintro ⟨directory', name', hlies', spec, hspec, hplace⟩
    have hparts : directory' ++ [name'] = directory ++ [name] :=
      Option.some.inj (hlies'.symm.trans hlies)
    obtain rfl := (List.append_inj' hparts rfl).1
    obtain ⟨last, hlast, hname⟩ := exists_isLast hspec
    refine ⟨last, hlast, directory', ?_, rfl⟩
    rw [h.imports spec hspec last hlast.mem hname, hplace]

end GoFile

/-! ## Dependencies on packages -/

namespace Examiner

open Fallible GoFile

theorem run_dependencies_go {tools : Tooling} {t : FileTree} {root file : Path}
    {src : SourceFile} {module own : String} (hsrc : SourceFile.read t file = .ok src)
    (hmodule : modulePath t root = .ok module) (hown : fileIdentifier t file root = own)
    (known : List String) (st : ExaminerState) :
    (dependencies ⟨.go, tools⟩ (.ofFiles t) file root known).run st =
      (.ok ((ofSource src).dependencies module own known), st) := by
  change (Examining.ofOutcome do
    let src ← SourceFile.read t file
    let module ← modulePath t root
    return (ofSource src).dependencies module (fileIdentifier t file root) known).run st = _
  rw [hsrc, hmodule, hown]
  rfl

/-- A Go file has dependencies, perhaps none, exactly if it can be opened and the manifest, if there
is one, is a text. They are the units, other than its own, of the files of which the words but for
the last one, joined by dots, are the joined directory of an imported package; an import counts only
if it is the last one that is used under its name. So a file is found from its own directory if its
stem holds no dot and the import is the last one under its name. Where no two paths are imported
under one name and no dots stand in the names of directories and stems, the dependencies are the
units of exactly those files that lie in the directory of an imported package. -/
theorem dependencies_on_packages (tools : Tooling) (t : FileTree) (root file : Path)
    (files : List Path) (st : ExaminerState) :
    let e : Examiner := ⟨.go, tools⟩
    let unit (g : Path) : String := e.identifier t g root
    let answer := (e.dependencies (.ofFiles t) file root (files.map unit)).run st
    ((∃ deps, answer = (.ok deps, st)) ↔
      t.Opens file ∧ t.TextIfFile (root.child "go.mod")) ∧
    ∀ src module deps, SourceFile.read t file = .ok src → modulePath t root = .ok module →
      answer = (.ok deps, st) →
      (∀ id, id ∈ deps ↔ id ≠ unit file ∧ ∃ g ∈ files, unit g = id ∧
        ∃ spec, IsLast (importSpecs src) spec ∧
          ∃ place, packagePlace? module spec.2 = some place ∧
            Text.join "." place = Text.join "." (e.wordsOf t root g).dropLast) ∧
      (∀ g ∈ files, ∀ directory name, LiesIn t root g directory name →
        '.' ∉ (Text.beforeLast name ".").toList → unit g ≠ unit file →
        ∀ spec, IsLast (importSpecs src) spec → packagePlace? module spec.2 = some directory →
          unit g ∈ deps) ∧
      (Unambiguous t root module files (importSpecs src) →
        ∀ id, id ∈ deps ↔ id ≠ unit file ∧ ∃ g ∈ files, unit g = id ∧
          ∃ directory name, LiesIn t root g directory name ∧
            ∃ spec ∈ importSpecs src, packagePlace? module spec.2 = some directory) := by
  intro e unit answer
  constructor
  · exact (exists_run_ofOutcome _ st).trans (exists_read_modulePath_ok _)
  intro src module deps hsrc hmodule hdeps
  have hexact (id : String) : id ∈ deps ↔ id ≠ unit file ∧ ∃ g ∈ files, unit g = id ∧
      ∃ spec, IsLast (importSpecs src) spec ∧
        ∃ place, packagePlace? module spec.2 = some place ∧
          Text.join "." place = Text.join "." (e.wordsOf t root g).dropLast := by
    have hgiven := (run_dependencies_go hsrc hmodule rfl _ st).symm.trans hdeps
    obtain rfl := Except.ok.inj (Prod.mk.inj hgiven).1
    rw [mem_dependencies_ofSource, List.mem_map]
    refine and_congr_right fun _ => ?_
    constructor
    · rintro ⟨⟨g, hg, rfl⟩, spec, hspec, place, hplace, hjoined⟩
      rw [split_identifier] at hjoined
      exact ⟨g, hg, rfl, spec, hspec, place, hplace, hjoined⟩
    · rintro ⟨g, hg, rfl, spec, hspec, place, hplace, hjoined⟩
      rw [← split_identifier] at hjoined
      exact ⟨⟨g, hg, rfl⟩, spec, hspec, place, hplace, hjoined⟩
  refine ⟨hexact, fun g hg directory name hlies hstem hother spec hspec hplace => ?_,
    fun hunambiguous id => (hexact id).trans ?_⟩
  · refine (hexact (unit g)).2 ⟨hother, g, hg, rfl, spec, hspec, directory, hplace, ?_⟩
    exact (join_wordsOf hlies hstem).symm
  · refine and_congr_right fun _ => exists_congr fun g => and_congr_right fun hg => ?_
    exact and_congr_right fun _ => hunambiguous.iff hg

/-- The tree of a declaration `import _ "path"` that begins at a byte. -/
def blankImport (start : Nat) (path : String) : SyntaxTree :=
  let stop := start + 11 + path.utf8ByteSize
  .node "import_declaration" true "" start stop
    [.node "import" false "" start (start + 6) [],
    .node "import_spec" true "" (start + 7) stop
      [.node "blank_identifier" true "name" (start + 7) (start + 8) [],
      .node "interpreted_string_literal" true "path" (start + 9) stop []]]

/-- A file that imports two packages under no names of their own. -/
def sourceImporting (file : Path) (first second : String) : SourceFile where
  path := file
  content := ("package m\nimport _ \"" ++ first ++ "\"\nimport _ \"" ++ second ++ "\"\n").toUTF8
  tree := .node "source_file" true "" 0 (34 + first.utf8ByteSize + second.utf8ByteSize)
    [.node "package_clause" true "" 0 9
      [.node "package" false "" 0 7 [], .node "package_identifier" true "" 8 9 []],
    blankImport 10 first, blankImport (22 + first.utf8ByteSize) second]

/-- The file of a source as it stands in a tree. -/
def fileOf (src : SourceFile) : FileNode := .file src.content (some src.tree)

/-- The manifest of the module `m`. -/
def manifestOfModule : FileNode := .file "module m\n".toUTF8 none

/-- A file that imports two packages of its module. -/
def importer : SourceFile := sourceImporting ⟨true, ["main.go"]⟩ "m/a/x" "m/b"

theorem importSpecs_importer : importSpecs importer = [("x", "m/a/x"), ("b", "m/b")] := by
  decide +kernel

/-- The module of the file. -/
def twoPackages : FileTree :=
  ⟨⟨[(["go.mod"], manifestOfModule), (["a"], .directory), (["a", "x"], .directory),
    (["a", "x", "p.go"], Survey.packageFile), (["b"], .directory),
    (["b", "q.go"], Survey.packageFile), (["main.go"], fileOf importer)]⟩, []⟩

/-- The source files of the module. -/
def filesOfTwoPackages : List Path :=
  [⟨true, ["a", "x", "p.go"]⟩, ⟨true, ["b", "q.go"]⟩, ⟨true, ["main.go"]⟩]

theorem unambiguous_twoPackages :
    Unambiguous twoPackages ⟨true, []⟩ "m" filesOfTwoPackages (importSpecs importer) := by
  rw [importSpecs_importer]
  refine ⟨by decide +kernel, by decide +kernel, ?_⟩
  unfold filesOfTwoPackages
  simp only [List.forall_mem_cons, List.not_mem_nil, false_implies, implies_true, and_true]
  exact ⟨⟨["a", "x"], "p.go", by rfl, by decide +kernel, by decide +kernel⟩,
    ⟨["b"], "q.go", by rfl, by decide +kernel, by decide +kernel⟩,
    ⟨[], "main.go", by rfl, by decide +kernel, by decide +kernel⟩⟩

/-- A file that imports two packages depends on the files of both. -/
theorem dependencies_on_two_packages :
    discover ⟨.go, .standard, []⟩ (.ofFiles twoPackages) ⟨true, []⟩ = .ok filesOfTwoPackages ∧
    ∃ deps, (dependencies ⟨.go, .standard, []⟩ (.ofFiles twoPackages) ⟨true, ["main.go"]⟩ ⟨true, []⟩
        ["a.x.p", "b.q", "main"]).run ⟨.empty, none⟩ = (.ok deps, ⟨.empty, none⟩) ∧
      "a.x.p" ∈ deps ∧ "b.q" ∈ deps ∧ "main" ∉ deps := by
  have hsrc : SourceFile.read twoPackages ⟨true, ["main.go"]⟩ = .ok importer := by rfl
  have hmodule : modulePath twoPackages ⟨true, []⟩ = .ok "m" := by rfl
  have hknown :
      (filesOfTwoPackages.map fun g => identifier ⟨.go, .standard, []⟩ twoPackages g ⟨true, []⟩) =
      ["a.x.p", "b.q", "main"] := by decide +kernel
  rw [← hknown]
  obtain ⟨-, hanswers⟩ := dependencies_on_packages ⟨.standard, []⟩ twoPackages ⟨true, []⟩
    ⟨true, ["main.go"]⟩
    filesOfTwoPackages ⟨.empty, none⟩
  obtain ⟨-, -, hplaces⟩ := hanswers importer "m" _ hsrc hmodule
    (run_dependencies_go hsrc hmodule rfl _ ⟨.empty, none⟩)
  have hdeps := hplaces unambiguous_twoPackages
  rw [importSpecs_importer] at hdeps
  refine ⟨by rfl, _, run_dependencies_go hsrc hmodule rfl _ _, (hdeps "a.x.p").2 ?_,
    (hdeps "b.q").2 ?_, fun hmain => ?_⟩
  · exact ⟨by decide +kernel, ⟨true, ["a", "x", "p.go"]⟩, by decide, by decide +kernel, ["a", "x"],
      "p.go", by rfl, ("x", "m/a/x"), by decide +kernel, by decide +kernel⟩
  · exact ⟨by decide +kernel, ⟨true, ["b", "q.go"]⟩, by decide, by decide +kernel, ["b"],
      "q.go", by rfl, ("b", "m/b"), by decide +kernel, by decide +kernel⟩
  · exact ((hdeps "main").1 hmain).1 (by decide +kernel)

/-- A file that imports two packages with one last segment. -/
def twinImporter : SourceFile := sourceImporting ⟨true, ["twins.go"]⟩ "m/a/x" "m/b/x"

/-- A file that imports a package with a dot in its name. -/
def dottedImporter : SourceFile := sourceImporting ⟨true, ["dots.go"]⟩ "m/b/x" "m/c.d"

/-- The module of these files. Of two of its packages the dotted names agree. -/
def mistakenPackages : FileTree :=
  ⟨⟨[(["go.mod"], manifestOfModule), (["a"], .directory), (["a", "x"], .directory),
    (["a", "x", "p.go"], Survey.packageFile), (["b"], .directory), (["b", "x"], .directory),
    (["b", "x", "q.go"], Survey.packageFile), (["c"], .directory), (["c", "d"], .directory),
    (["c", "d", "r.go"], Survey.packageFile), (["c.d"], .directory),
    (["c.d", "s.go"], Survey.packageFile), (["dots.go"], fileOf dottedImporter),
    (["twins.go"], fileOf twinImporter)]⟩, []⟩

/-- Of two packages with one last segment only the files of the later import are found, and files
are found that lie in no imported directory but in one with the same dotted name. -/
theorem packages_mistaken :
    (∃ deps,
      (dependencies ⟨.go, .standard, []⟩ (.ofFiles mistakenPackages) ⟨true, ["twins.go"]⟩ ⟨true, []⟩
        ["a.x.p", "b.x.q", "c.d.r", "c.d.s", "dots", "twins"]).run ⟨.empty, none⟩ =
          (.ok deps, ⟨.empty, none⟩) ∧
      ("x", "m/a/x") ∈ importSpecs twinImporter ∧
      packagePlace? "m" "m/a/x" = some ["a", "x"] ∧
      LiesIn mistakenPackages ⟨true, []⟩ ⟨true, ["a", "x", "p.go"]⟩ ["a", "x"] "p.go" ∧
      "a.x.p" ∉ deps) ∧
    ∃ deps,
      (dependencies ⟨.go, .standard, []⟩ (.ofFiles mistakenPackages) ⟨true, ["dots.go"]⟩ ⟨true, []⟩
        ["a.x.p", "b.x.q", "c.d.r", "c.d.s", "dots", "twins"]).run ⟨.empty, none⟩ =
          (.ok deps, ⟨.empty, none⟩) ∧
      (∀ spec ∈ importSpecs dottedImporter, packagePlace? "m" spec.2 ≠ some ["c", "d"]) ∧
      LiesIn mistakenPackages ⟨true, []⟩ ⟨true, ["c", "d", "r.go"]⟩ ["c", "d"] "r.go" ∧
      "c.d.r" ∈ deps := by
  have hmodule : modulePath mistakenPackages ⟨true, []⟩ = .ok "m" := by rfl
  have htwins : SourceFile.read mistakenPackages ⟨true, ["twins.go"]⟩ = .ok twinImporter := by rfl
  have hdots : SourceFile.read mistakenPackages ⟨true, ["dots.go"]⟩ = .ok dottedImporter := by rfl
  have htwinSpecs : importSpecs twinImporter = [("x", "m/a/x"), ("x", "m/b/x")] := by
    decide +kernel
  have hdottedSpecs : importSpecs dottedImporter = [("x", "m/b/x"), ("c.d", "m/c.d")] := by
    decide +kernel
  have htwinsName : fileIdentifier mistakenPackages ⟨true, ["twins.go"]⟩ ⟨true, []⟩ = "twins" := by
    decide +kernel
  have hdotsName : fileIdentifier mistakenPackages ⟨true, ["dots.go"]⟩ ⟨true, []⟩ = "dots" := by
    decide +kernel
  refine ⟨⟨_, run_dependencies_go htwins hmodule htwinsName _ _, ?_, ?_, by rfl, ?_⟩,
    _, run_dependencies_go hdots hmodule hdotsName _ _, ?_, by rfl, ?_⟩
  · rw [htwinSpecs]
    decide
  · decide +kernel
  · unfold GoFile.dependencies
    rw [imports_ofSource, htwinSpecs]
    decide +kernel
  · rw [hdottedSpecs]
    decide +kernel
  · unfold GoFile.dependencies
    rw [imports_ofSource, hdottedSpecs]
    decide +kernel

end Examiner

end CodeAtlas
