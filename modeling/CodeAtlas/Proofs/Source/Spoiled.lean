import CodeAtlas.Ignore.Patterns
import CodeAtlas.Proofs.Source.Readable
import CodeAtlas.Proofs.Source.Shape

/-!
# What one unreadable file spoils

When the bytes of one file cease to be a text, nothing changes in the facts of another one: in its
kind, its methods, and the units that its methods' parameters are. Only an extraction that looks
into the spoiled file fails with it. In Java, Python and TypeScript there is none, but in Go there
is: every function with a parameter whose type is named without a package looks into all files of
its directory, so one of them that is no text takes the others with it.
-/

namespace CodeAtlas

open Fallible

namespace Outcome

variable {α β : Type}

theorem bind_congr_of_ok {x : Outcome α} {f g : α → Outcome β}
    (h : ∀ a, x = .ok a → f a = g a) : (x >>= f) = (x >>= g) := by
  cases x with
  | error failure => rfl
  | ok a => exact h a rfl

theorem foldlM_congr {f g : β → α → Outcome β} {xs : List α}
    (h : ∀ b, ∀ a ∈ xs, f b a = g b a) (b : β) : xs.foldlM f b = xs.foldlM g b := by
  induction xs generalizing b with
  | nil => rfl
  | cons a rest ih =>
    rw [List.foldlM_cons, List.foldlM_cons, h b a List.mem_cons_self]
    exact bind_congr fun c => ih (fun b x hx => h b x (List.mem_cons_of_mem _ hx)) c

end Outcome

/-! ## Readings that agree -/

namespace GoFile

variable {t t' : FileTree} {root : Path}

/-! In trees of one shape the same files are looked into, and where they are read alike the same
units are found. -/

section

variable (h : t.SameShape t')
include h

theorem typeFiles_eq (g : GoFile) (module written : String) :
    g.typeFiles t' root module written = g.typeFiles t root module written := by
  unfold typeFiles
  simp only [h.packageFiles_eq]

theorem consulted_eq (g : GoFile) (module : String) :
    g.consulted t' root module = g.consulted t root module := by
  unfold consulted
  rw [show g.typeFiles t' root module = g.typeFiles t root module from
    funext fun written => typeFiles_eq h g module written]

theorem declaringUnit?_eq (name : String) {ps : List Path}
    (hread : ∀ p ∈ ps, SourceFile.read t' p = SourceFile.read t p) :
    declaringUnit? t' root name ps = declaringUnit? t root name ps := by
  induction ps with
  | nil => rfl
  | cons p rest ih =>
    unfold declaringUnit?
    rw [hread p List.mem_cons_self, ih fun q hq => hread q (List.mem_cons_of_mem _ hq),
      h.fileIdentifier_eq]

theorem resolveType?_eq (g : GoFile) (module written : String)
    (hread : ∀ p ∈ g.typeFiles t root module written,
      SourceFile.read t' p = SourceFile.read t p) :
    g.resolveType? t' root module written = g.resolveType? t root module written := by
  unfold typeFiles at hread
  unfold resolveType?
  simp only [h.packageFiles_eq]
  generalize Text.splitLast? (plainType written) "." = cut at hread ⊢
  cases cut with
  | none => exact declaringUnit?_eq h _ hread
  | some cut =>
    dsimp only at hread ⊢
    cases hpackage : (g.imports.get? cut.1).bind (packageOf? module) with
    | none => rfl
    | some package =>
      rw [hpackage] at hread
      exact declaringUnit?_eq h _ hread

theorem parameterTargets_eq (g : GoFile) (module : String) (known : List String)
    (hread : ∀ p ∈ g.consulted t root module, SourceFile.read t' p = SourceFile.read t p) :
    g.parameterTargets t' root module known = g.parameterTargets t root module known := by
  have htypes : ∀ fn ∈ g.functions, fn.parameterTypes.mapM (g.resolveType? t' root module) =
      fn.parameterTypes.mapM (g.resolveType? t root module) := by
    intro fn hfn
    refine mapM_congr fun written hwritten => ?_
    refine resolveType?_eq h g module written fun p hp => hread p ?_
    exact List.mem_flatMap.2 ⟨fn, hfn, List.mem_flatMap.2 ⟨written, hwritten, hp⟩⟩
  unfold parameterTargets
  refine Outcome.foldlM_congr (fun targets fn hfn => ?_) _
  rw [htypes fn hfn]

end

end GoFile

namespace FileTree

/-- Whether one tree is another one in which the file at a place has ceased to be a text. -/
structure Spoils (t t' : FileTree) (parts : List String) : Prop where
  shape : t.SameShape t'
  elsewhere : ∀ q, q ≠ parts → t'.node? q = t.node? q
  there : ∃ content tree, t'.node? parts = some (.file content tree) ∧ decodeText content = none

/-- Putting bytes that are no text in place of a file spoils it. -/
theorem spoils_put {t : FileTree} {parts : List String} {content content' : ByteArray}
    {tree tree' : Option SyntaxTree} (h : t.node? parts = some (.file content tree))
    (hspoilt : decodeText content' = none) :
    t.Spoils (t.put parts (.file content' tree')) parts where
  shape := sameShape_put h
  elsewhere q hq := by rw [node?_put (ne_nil_of_file h), if_neg hq]
  there := ⟨content', tree', by rw [node?_put (ne_nil_of_file h), if_pos rfl], hspoilt⟩

namespace Spoils

variable {t t' : FileTree} {parts : List String} {p : Path} (h : t.Spoils t' parts)
include h

theorem agreesAt (hp : t.locate p ≠ .ok parts) : t.AgreesAt t' p :=
  fun q hq => h.elsewhere q fun heq => hp (heq ▸ hq)

/-- The spoiled file has bytes, which are no text. -/
theorem readBytes_there (hp : t.locate p = .ok parts) :
    t'.isFile p = true ∧ ∃ content, t'.readBytes p = .ok content ∧ decodeText content = none := by
  obtain ⟨content, tree, hnode, hspoilt⟩ := h.there
  unfold isFile target? readBytes
  rw [h.shape.samePlaces.locate_eq, hp]
  dsimp only
  rw [hnode]
  exact ⟨rfl, content, rfl, hspoilt⟩

theorem not_opens (hp : t.locate p = .ok parts) : ¬t'.Opens p := by
  obtain ⟨-, content, hbytes, hspoilt⟩ := h.readBytes_there hp
  rintro ⟨f, hf⟩
  unfold SourceFile.read at hf
  rw [hbytes] at hf
  dsimp only at hf
  rw [hspoilt] at hf
  cases hf

theorem ofProject_eq_of_ne {l : Json.Limits} {dir : Path}
    (hplace : t.locate (dir.child Framework.manifestName) ≠ .ok parts) :
    Framework.ofProject l t' dir = Framework.ofProject l t dir := by
  unfold Framework.ofProject
  dsimp only
  rw [h.shape.samePlaces.isFile_eq, h.shape.samePlaces.readBytes_eq (h.agreesAt hplace)]

/-- A manifest that still tells a framework is not the spoiled file. -/
theorem ofProject_eq {l : Json.Limits} {dir : Path}
    (hsound : ∃ framework, Framework.ofProject l t' dir = .ok framework) :
    Framework.ofProject l t' dir = Framework.ofProject l t dir := by
  obtain ⟨framework, hframework⟩ := hsound
  refine h.ofProject_eq_of_ne fun hp => ?_
  obtain ⟨hfile, content, hbytes, hspoilt⟩ := h.readBytes_there hp
  unfold Framework.ofProject decode at hframework
  dsimp only at hframework
  rw [if_pos hfile, hbytes] at hframework
  dsimp only at hframework
  rw [hspoilt] at hframework
  cases hframework

theorem modulePath_eq_of_ne {root : Path} (hplace : t.locate (root.child "go.mod") ≠ .ok parts) :
    GoFile.modulePath t' root = GoFile.modulePath t root := by
  unfold GoFile.modulePath
  dsimp only
  rw [h.shape.samePlaces.isFile_eq, h.shape.samePlaces.readBytes_eq (h.agreesAt hplace)]

/-- A manifest that still tells a module is not the spoiled file. -/
theorem modulePath_eq {root : Path} (hsound : ∃ module, GoFile.modulePath t' root = .ok module) :
    GoFile.modulePath t' root = GoFile.modulePath t root := by
  obtain ⟨module, hmodule⟩ := hsound
  refine h.modulePath_eq_of_ne fun hp => ?_
  obtain ⟨hfile, content, hbytes, hspoilt⟩ := h.readBytes_there hp
  unfold GoFile.modulePath decode at hmodule
  dsimp only at hmodule
  rw [if_pos hfile, hbytes] at hmodule
  dsimp only at hmodule
  rw [hspoilt] at hmodule
  cases hmodule

theorem read_eq (hp : t.locate p ≠ .ok parts) : SourceFile.read t' p = SourceFile.read t p :=
  h.shape.samePlaces.read_eq (h.agreesAt hp)

theorem analyzeModule_eq_of_manifest {l : Json.Limits} (hp : t.locate p ≠ .ok parts)
    (hmanifest : Framework.ofProject l t' (Examiner.scriptProject t p) =
      Framework.ofProject l t (Examiner.scriptProject t p)) :
    Examiner.analyzeModule l t' p = Examiner.analyzeModule l t p := by
  unfold Examiner.analyzeModule Examiner.scriptSetting
  dsimp only
  rw [h.read_eq hp, h.shape.scriptProject_eq, h.shape.samePlaces.resolve_eq, hmanifest]

theorem analyzeModule_eq {e : Examiner} {root : Path} (hsound : t'.SoundManifests e root)
    (he : e.language = .typescript) (hp : t.locate p ≠ .ok parts) :
    Examiner.analyzeModule e.tools.limits t' p = Examiner.analyzeModule e.tools.limits t p :=
  h.analyzeModule_eq_of_manifest hp (h.ofProject_eq (hsound.frameworks he _))

end Spoils

end FileTree

/-! ## What remains -/

namespace Examiner

variable {e : Examiner} {t t' : FileTree} {parts : List String} {root file : Path}

section

variable (h : t.Spoils t' parts) (hfile : t.locate file ≠ .ok parts)
include h hfile

/-- The kind of a unit remains when the file of another one is spoiled. -/
theorem kind_eq_of_spoils (he : e.analyzer = []) (hsound : t'.SoundManifests e root) :
    e.kind (.ofFiles t') file = e.kind (.ofFiles t) file := by
  obtain ⟨language, tools⟩ := e
  unfold kind
  cases language with
  | java | go => simp only [Sources.ofFiles, h.read_eq hfile]
  | python =>
    simp only [Sources.ofFiles, h.read_eq hfile, h.shape.pythonKind_eq]
  | typescript =>
    simp only [moduleAnalysis_eq he, Sources.ofFiles, h.analyzeModule_eq hsound rfl hfile]

theorem methods_eq_of_spoils (he : e.analyzer = []) (hsound : t'.SoundManifests e root) :
    e.methods (.ofFiles t') file = e.methods (.ofFiles t) file := by
  obtain ⟨language, tools⟩ := e
  unfold methods
  cases language with
  | java | go | python => simp only [Sources.ofFiles, h.read_eq hfile]
  | typescript =>
    simp only [moduleAnalysis_eq he, Sources.ofFiles, h.analyzeModule_eq hsound rfl hfile]

/-- All facts of a unit remain when a file is spoiled into which its extraction does not look. -/
theorem ofFile_eq_of_spoils (hsound : t'.SoundManifests e root) (known : List String)
    (hothers : ∀ other, e.Consults t root file other → t.locate other ≠ .ok parts) :
    UnitFacts.ofFile e t' root known file =
      UnitFacts.ofFile e t root known file := by
  obtain ⟨language, tools⟩ := e
  unfold UnitFacts.ofFile
  cases language with
  | java =>
    dsimp only
    rw [h.read_eq hfile]
  | python =>
    dsimp only
    rw [h.read_eq hfile]
    exact bind_congr fun f => by rw [h.shape.pythonKind_eq, h.shape.pythonParameterTargets_eq]
  | typescript =>
    dsimp only
    rw [h.analyzeModule_eq hsound rfl hfile]
    exact bind_congr fun a => by rw [h.shape.moduleParameterTargets_eq]
  | go =>
    dsimp only
    rw [h.read_eq hfile, h.modulePath_eq (hsound.module rfl)]
    refine Outcome.bind_congr_of_ok fun f hread => ?_
    refine Outcome.bind_congr_of_ok fun module hmodule => ?_
    rw [GoFile.parameterTargets_eq h.shape (GoFile.ofSource f) module known
      fun p hp => h.read_eq (hothers p ⟨rfl, f, module, hread, hmodule, hp⟩)]

end

/-- An extraction looks into the same files when another one is spoiled. -/
theorem Consults.of_spoils (h : t.Spoils t' parts) (hfile : t.locate file ≠ .ok parts)
    (hsound : t'.SoundManifests e root) {other : Path}
    (hother : e.Consults t root file other) : e.Consults t' root file other := by
  obtain ⟨hlanguage, f, module, hread, hmodule, hmem⟩ := hother
  refine ⟨hlanguage, f, module, (h.read_eq hfile).trans hread, ?_, ?_⟩
  · rw [h.modulePath_eq (hsound.module hlanguage), hmodule]
  · rwa [GoFile.consulted_eq h.shape]

end Examiner

namespace Examiner

variable {e : Examiner} {t t' : FileTree} {parts : List String} {root file : Path}

/-- The source root is a matter of a tree's shape but for the manifest of a script project. -/
theorem sourceRoot_eq_of_shape (h : t.SameShape t') {repository : Path}
    (hmanifest : e.language = .typescript →
      Framework.ofProject e.tools.limits t' repository =
        Framework.ofProject e.tools.limits t repository) :
    e.sourceRoot (.ofFiles t') repository = e.sourceRoot (.ofFiles t) repository := by
  have hdirectories : (Sources.ofFiles t').now.isDirectory = (Sources.ofFiles t).now.isDirectory :=
    funext h.samePlaces.isDirectory_eq
  obtain ⟨language, tools⟩ := e
  unfold sourceRoot
  cases language with
  | java => rw [hdirectories]
  | go => rfl
  | python => exact congrArg Except.ok (h.pythonSourceRoot_eq repository)
  | typescript =>
    have hproject : Framework.ofProject tools.limits (Sources.ofFiles t').kept repository =
        Framework.ofProject tools.limits (Sources.ofFiles t).kept repository := hmanifest rfl
    simp only [hproject, hdirectories]

theorem sourceRoot_eq_of_spoils (h : t.Spoils t' parts)
    (hsound : t'.SoundManifests e root) (repository : Path) :
    e.sourceRoot (.ofFiles t') repository = e.sourceRoot (.ofFiles t) repository :=
  sourceRoot_eq_of_shape h.shape fun hlanguage => h.ofProject_eq (hsound.frameworks hlanguage _)

/-- An extraction that looks into the spoiled file fails. -/
theorem extract_fails_of_spoils (he : e.analyzer = []) (h : t.Spoils t' parts)
    (hfile : t.locate file ≠ .ok parts) (hsound : t'.SoundManifests e root)
    (known : List String)
    (hspoilt : ∃ other, e.Consults t root file other ∧ t.locate other = .ok parts)
    (st : ExaminerState) :
    ∃ f, (UnitFacts.extract e (.ofFiles t') root known file).run st = (.error f, st) := by
  obtain ⟨other, hother, hplace⟩ := hspoilt
  rw [extract_eq he]
  cases hfacts : UnitFacts.ofFile e t' root known file with
  | error f => exact ⟨f, rfl⟩
  | ok facts =>
    have hopens := ((exists_ofFile_ok hsound known file).1 ⟨facts, hfacts⟩).2 other
      (hother.of_spoils h hfile hsound)
    exact absurd hopens (h.not_opens hplace)

end Examiner

namespace FileTree

variable {t : FileTree}

/-- Whether no file without a syntax tree stands at a place. -/
def hasTree (t : FileTree) (parts : List String) : Bool :=
  match t.node? parts with
  | some (.file _ none) => false
  | _ => true

/-- Where all files have syntax trees, all texts have them. -/
theorem parsed_of_hasTree (h : ∀ parts ∈ t.nodes.keys, t.hasTree parts = true) (l : Language) :
    t.Parsed l := by
  rintro p - ⟨content, text, hbytes, -⟩
  unfold readBytes at hbytes
  unfold syntaxTree? target?
  cases hlocated : t.locate p with
  | error kind =>
    rw [hlocated] at hbytes
    cases hbytes
  | ok parts =>
    rw [hlocated] at hbytes
    dsimp only at hbytes ⊢
    split at hbytes
    · next found tree hnode =>
      have hkey := mem_keys_of_node? (ne_nil_of_file hnode) hnode
      have htree := h parts hkey
      unfold hasTree at htree
      rw [hnode] at htree ⊢
      cases tree with
      | none => cases htree
      | some tree => rfl
    · cases hbytes
    · cases hbytes

end FileTree

namespace Survey

variable {e : Examiner} {t : FileTree} {repository root : Path} {files : List Path}

/-- A description of all discovered units, found anew or given, comes to an end in every state.
It notes as failed the units whose files are no texts, and the units that look into such a file.
When one file ceases to be a text, every other unit keeps its kind and its methods. Its extraction
comes to the same if it does not look into that file, and fails if it does. -/
theorem unreadable_spoils_consulting (he : e.analyzer = [])
    (hroot : e.sourceRoot (.ofFiles t) repository = .ok root)
    (hfiles : e.discover (.ofFiles t) repository = .ok files) (hparsed : t.Parsed e.language)
    (hmanifests : t.SoundManifests e root) {g : Graph}
    (hnodes : ∀ u ∈ unitsOf e t root files, g.contains u.identifier = true) :
    (∀ found, found = none ∨ found = some (unitsOf e t root files) → ∀ st, ∃ h failed after,
      (g.describe e (.ofFiles t) repository found none).run st = (.ok (h, failed), after) ∧
      ∀ id, id ∈ failed ↔ ∃ u ∈ unitsOf e t root files, u.identifier = id ∧
        (¬t.Readable u.path ∨ ∃ other, e.Consults t root u.path other ∧ ¬t.Readable other)) ∧
    ∀ t' parts, t.Spoils t' parts → t'.SoundManifests e root →
      e.sourceRoot (.ofFiles t') repository = .ok root ∧
      ∀ u ∈ unitsOf e t root files, t.locate u.path ≠ .ok parts →
        e.kind (.ofFiles t') u.path = e.kind (.ofFiles t) u.path ∧
        e.methods (.ofFiles t') u.path = e.methods (.ofFiles t) u.path ∧
        ∀ known,
          ((∀ other, e.Consults t root u.path other → t.locate other ≠ .ok parts) →
            UnitFacts.extract e (.ofFiles t') root known u.path =
              UnitFacts.extract e (.ofFiles t) root known u.path) ∧
          ((∃ other, e.Consults t root u.path other ∧ t.locate other = .ok parts) →
            ∀ st, ∃ f, (UnitFacts.extract e (.ofFiles t') root known u.path).run st =
              (.error f, st)) := by
  refine ⟨fun found hfound st =>
    exists_run_describe_unitsOf he hroot hfiles hparsed hmanifests hnodes hfound st, ?_⟩
  intro t' parts hspoils hsound
  refine ⟨(Examiner.sourceRoot_eq_of_spoils hspoils hsound repository).trans hroot, ?_⟩
  intro u hu hplace
  refine ⟨Examiner.kind_eq_of_spoils hspoils hplace he hsound,
    Examiner.methods_eq_of_spoils hspoils hplace he hsound, fun known => ⟨fun hothers => ?_,
      fun hspoilt => Examiner.extract_fails_of_spoils he hspoils hplace hsound known hspoilt⟩⟩
  rw [Examiner.extract_eq he, Examiner.extract_eq he,
    Examiner.ofFile_eq_of_spoils hspoils hplace hsound known hothers]

/-- A Go file of two lines: a package clause and a function with a parameter of a type `T`. -/
def parameterFile : FileNode :=
  .file "package p\nfunc f(x T) \x7b\x7d".toUTF8 (some (.node "source_file" true "" 0 24
    [.node "package_clause" true "" 0 9
      [.node "package" false "" 0 7 [], .node "package_identifier" true "" 8 9 []],
    .node "function_declaration" true "" 10 24
      [.node "func" false "" 10 14 [],
      .node "identifier" true "name" 15 16 [],
      .node "parameter_list" true "parameters" 16 21
        [.node "(" false "" 16 17 [],
        .node "parameter_declaration" true "" 17 20
          [.node "identifier" true "name" 17 18 [],
          .node "type_identifier" true "type" 19 20 []],
        .node ")" false "" 20 21 []],
      .node "block" true "body" 22 24
        [.node "\x7b" false "" 22 23 [], .node "\x7d" false "" 23 24 []]]]))

/-- Two files of one package. -/
def pairOfFiles : FileTree := ⟨⟨[(["a.go"], parameterFile), (["b.go"], parameterFile)]⟩, []⟩

/-- The two files when the second one is a single byte that is no text. -/
def pairWithSpoilt : FileTree := pairOfFiles.put ["b.go"] (.file ⟨#[255]⟩ none)

/-- The nodes of the two files. -/
def graphOfPair : Graph := (Graph.empty.addNode "a" "a.go").addNode "b" "b.go"

theorem parsed_pairOfFiles : pairOfFiles.Parsed .go :=
  FileTree.parsed_of_hasTree (by decide +kernel) .go

/-- The extraction of a readable file stops when a file beside it ceases to be a text. -/
theorem unreadable_spoils_consulting_in_pair :
    (∃ h failed after,
      (graphOfPair.describe ⟨.go, .standard, []⟩ (.ofFiles pairOfFiles) ⟨true, []⟩ none
        none).run ⟨.empty, none⟩ = (.ok (h, failed), after)) ∧
      ∃ f, (UnitFacts.extract ⟨.go, .standard, []⟩ (.ofFiles pairWithSpoilt) ⟨true, []⟩ ["a", "b"]
        ⟨true, ["a.go"]⟩).run ⟨.empty, none⟩ = (.error f, ⟨.empty, none⟩) := by
  have hroot : Examiner.sourceRoot ⟨.go, .standard, []⟩ (.ofFiles pairOfFiles) ⟨true, []⟩ =
      .ok ⟨true, []⟩ :=
    rfl
  have hfiles : Examiner.discover ⟨.go, .standard, []⟩ (.ofFiles pairOfFiles) ⟨true, []⟩ =
      .ok [⟨true, ["a.go"]⟩, ⟨true, ["b.go"]⟩] := by
    rfl
  obtain ⟨hdescribed, hspoils⟩ := unreadable_spoils_consulting rfl hroot hfiles parsed_pairOfFiles
    ⟨nofun, fun _ => ⟨"", by rfl⟩⟩ (g := graphOfPair) (by decide +kernel)
  constructor
  · obtain ⟨h, failed, after, hrun, -⟩ := hdescribed none (Or.inl rfl) ⟨.empty, none⟩
    exact ⟨h, failed, after, hrun⟩
  · obtain ⟨-, hfacts⟩ := hspoils pairWithSpoilt ["b.go"]
      (FileTree.spoils_put (by rfl) (by decide +kernel)) ⟨nofun, fun _ => ⟨"", by rfl⟩⟩
    obtain ⟨-, -, hextract⟩ := hfacts ⟨⟨true, ["a.go"]⟩, "a"⟩ (by decide +kernel)
      (by decide +kernel)
    refine (hextract ["a", "b"]).2 ⟨⟨true, ["b.go"]⟩, ⟨rfl, _, "", by rfl, by rfl, ?_⟩, by rfl⟩
      ⟨.empty, none⟩
    decide +kernel

/-- The description of the spoiled pair notes the readable file as failed, too. -/
theorem both_failed_of_pairWithSpoilt :
    Examiner.discover ⟨.go, .standard, []⟩ (.ofFiles pairWithSpoilt) ⟨true, []⟩ =
        .ok [⟨true, ["a.go"]⟩, ⟨true, ["b.go"]⟩] ∧
      pairWithSpoilt.Readable ⟨true, ["a.go"]⟩ ∧ ¬pairWithSpoilt.Readable ⟨true, ["b.go"]⟩ ∧
      ∃ h after,
        (graphOfPair.describe ⟨.go, .standard, []⟩ (.ofFiles pairWithSpoilt) ⟨true, []⟩ none
        none).run ⟨.empty, none⟩ = (.ok (h, ["a", "b"]), after) := by
  refine ⟨by rfl, ⟨_, "package p\nfunc f(x T) \x7b\x7d", by rfl, by decide +kernel⟩, ?_, ?_⟩
  · rintro ⟨content, text, hbytes, htext⟩
    have hcontent : (⟨#[255]⟩ : ByteArray) = content := Except.ok.inj hbytes
    have hspoilt : FileTree.decodeText ⟨#[255]⟩ = none := by decide +kernel
    rw [← hcontent, hspoilt] at htext
    cases htext
  · have hoption :
      ((graphOfPair.describe ⟨.go, .standard, []⟩ (.ofFiles pairWithSpoilt) ⟨true, []⟩ none
        none).run ⟨.empty, none⟩).1.toOption.map (·.2) = some ["a", "b"] := by
      decide +kernel
    obtain ⟨⟨h, failed⟩, after, hrun, rfl⟩ := Fallible.exists_eq_ok hoption
    exact ⟨h, after, hrun⟩

end Survey

end CodeAtlas
