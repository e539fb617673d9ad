import CodeAtlas.Ignore.Patterns
import CodeAtlas.Proofs.Source.Given

/-!
# What a survey loses with a file

When a source file ceases to be a text, a survey of the repository comes to an end as before, with
the same nodes. It loses the edges that this file gave and its mark as an entry point, and nothing
else. That is not so of the files that are read before source files are examined: a manifest or an
ignore file that is no text stops the survey.
-/

namespace CodeAtlas

open Fallible

/-- Whether one tree is another one in which a source file has ceased to be a text. The file is no
manifest of the language and not the ignore file, and it is as before small enough to be examined,
or too large. -/
structure Examiner.SpoilsSource (e : Examiner) (repository : Path) (t t' : FileTree)
    (parts : List String) : Prop extends t.Spoils t' parts where
  manifests : e.language = .typescript → ∀ dir : Path,
    t.locate (dir.child Framework.manifestName) ≠ .ok parts
  module : e.language = .go → t.locate (repository.child "go.mod") ≠ .ok parts
  ignoreFile : t.locate ((t.resolve repository).child Ignore.fileName) ≠ .ok parts
  size : ∀ content tree content' tree', t.node? parts = some (.file content tree) →
    t'.node? parts = some (.file content' tree') →
      ((content'.size : Int) ≤ DiscoveryRule.defaultMaxSize ↔
        (content.size : Int) ≤ DiscoveryRule.defaultMaxSize)

namespace Examiner.SpoilsSource

variable {e : Examiner} {repository root : Path} {t t' : FileTree} {parts : List String}

section

variable (h : e.SpoilsSource repository t t' parts)
include h

/-! ## What is discovered -/

theorem fits_eq (p : Path) : e.rule.fits t' p = e.rule.fits t p := by
  unfold DiscoveryRule.fits FileTree.size? FileTree.target?
  rw [h.shape.samePlaces.locate_eq]
  cases t.locate p with
  | error kind => rfl
  | ok place =>
    dsimp only
    by_cases hplace : place = parts
    · subst hplace
      rcases h.shape.nodes place with hsame | ⟨content, tree, content', tree', hold, hnew⟩
      · rw [hsame]
      · rw [hold, hnew]
        exact decide_eq_decide.2 (h.size content tree content' tree' hold hnew)
    · rw [h.elsewhere place hplace]

theorem load_eq :
    Ignore.load t' (t'.resolve repository) = Ignore.load t (t.resolve repository) := by
  have hbytes := h.shape.samePlaces.readBytes_eq (h.agreesAt h.ignoreFile)
  unfold Ignore.fileName at hbytes
  unfold Ignore.load
  dsimp only
  rw [h.shape.samePlaces.resolve_eq, h.shape.samePlaces.isFile_eq, hbytes]

theorem keeps_eq (lines met : List String) :
    e.rule.keeps t' (t'.resolve repository) lines met =
      e.rule.keeps t (t.resolve repository) lines met := by
  unfold DiscoveryRule.keeps
  simp only [h.fits_eq, h.shape.samePlaces.resolve_eq]

theorem sourceRoot_eq :
    e.sourceRoot (.ofFiles t') repository = e.sourceRoot (.ofFiles t) repository :=
  sourceRoot_eq_of_shape h.shape fun hlanguage =>
    h.ofProject_eq_of_ne (h.manifests hlanguage repository)

/-- The same files are discovered. -/
theorem discover_eq :
    e.discover (.ofFiles t') repository = e.discover (.ofFiles t) repository := by
  have hsize : t'.nodes.size = t.nodes.size := by
    have hkeys := congrArg List.length h.shape.keys
    simpa only [Dict.size, Dict.keys, List.length_map] using hkeys
  have hbelow (root : Path) :
      t'.discover repository root e.rule = t.discover repository root e.rule := by
    unfold FileTree.discover
    dsimp only
    rw [h.load_eq, hsize, h.shape.samePlaces.resolve_eq root,
      h.shape.samePlaces.isDirectory_eq, h.shape.walk_eq]
    simp only [h.keeps_eq]
  change e.sourceRoot (.ofFiles t') repository >>= _ = e.sourceRoot (.ofFiles t) repository >>= _
  rw [h.sourceRoot_eq]
  exact bind_congr hbelow

/-- A survey is stopped as before. -/
theorem unhindered_iff : e.Unhindered t' repository ↔ e.Unhindered t repository := by
  rw [Examiner.unhindered_iff, Examiner.unhindered_iff, h.discover_eq]
  simp only [h.shape.samePlaces.resolve_eq]

theorem unitsOf_eq (files : List Path) :
    Survey.unitsOf e t' root files = Survey.unitsOf e t root files := by
  have hidentifier (file : Path) : e.identifier t' file root = e.identifier t file root := by
    unfold identifier
    split
    · exact h.shape.pythonIdentifier_eq file root
    · exact h.shape.fileIdentifier_eq file root
  unfold Survey.unitsOf
  simp only [hidentifier]

theorem units_eq {s s' : Survey} (hs : s.Covers e t repository)
    (hs' : s'.Covers e t' repository) : s'.units = s.units := by
  obtain ⟨root, files, hroot, hfiles, hunits⟩ := hs.found
  obtain ⟨root', files', hroot', hfiles', hunits'⟩ := hs'.found
  rw [h.sourceRoot_eq] at hroot'
  rw [h.discover_eq] at hfiles'
  obtain rfl : root = root' := Except.ok.inj (hroot.symm.trans hroot')
  obtain rfl : files = files' := Except.ok.inj (hfiles.symm.trans hfiles')
  rw [hunits, hunits', h.unitsOf_eq]

/-- The same nodes are made. -/
theorem nodesOf_eq (units : List SourceUnit) :
    Survey.nodesOf t' repository units = Survey.nodesOf t repository units := by
  unfold Survey.nodesOf SourceUnit.relativePath
  simp only [h.shape.samePlaces.resolve_eq]

/-! ## What files give -/

/-- Another file gives what it gave. -/
theorem dependenciesIn_eq (hroot : e.sourceRoot (.ofFiles t) repository = .ok root) {file : Path}
    (hfile : t.locate file ≠ .ok parts) (known : List String) :
    e.dependenciesIn t' root known file = e.dependenciesIn t root known file := by
  have hmodule (hlanguage : e.language = .go) :
      GoFile.modulePath t' root = GoFile.modulePath t root := by
    unfold sourceRoot at hroot
    rw [hlanguage] at hroot
    obtain rfl := Except.ok.inj hroot
    exact h.modulePath_eq_of_ne (h.module hlanguage)
  have hanalysis (hlanguage : e.language = .typescript) :
      analyzeModule e.tools.limits t' file = analyzeModule e.tools.limits t file :=
    h.analyzeModule_eq_of_manifest hfile (h.ofProject_eq_of_ne (h.manifests hlanguage _))
  unfold dependenciesIn
  split
  · rw [h.read_eq hfile]
  · next hlanguage => rw [h.read_eq hfile, hmodule hlanguage, h.shape.fileIdentifier_eq]
  · simp only [h.read_eq hfile, h.shape.pythonDependencies_eq]
  · next hlanguage => simp only [hanalysis hlanguage, h.shape.moduleDependencies_eq]

theorem entryPointIn_eq {file : Path} (hfile : t.locate file ≠ .ok parts) :
    e.entryPointIn t' file = e.entryPointIn t file := by
  unfold entryPointIn
  split
  · rw [h.read_eq hfile]
  · rw [h.read_eq hfile]
  · rw [h.read_eq hfile]
  · next hlanguage =>
    rw [h.analyzeModule_eq_of_manifest hfile (h.ofProject_eq_of_ne (h.manifests hlanguage _))]

/-- What the files of the spoiled tree give is what the other files gave. -/
theorem givenBy (hroot : e.sourceRoot (.ofFiles t) repository = .ok root)
    {units : List SourceUnit} {s : Survey} (hs : s.GivenBy e t' root units) :
    s.GivenBy e t root (units.filter fun u => t.locate u.path ≠ .ok parts) := by
  -- What holds of the units of the spoiled tree holds of none whose file is the spoiled one.
  have hothers {D D' : SourceUnit → Prop} (hlost : ∀ u, t.locate u.path = .ok parts → ¬D' u)
      (hkept : ∀ u, t.locate u.path ≠ .ok parts → (D' u ↔ D u)) (id : String) :
      (∃ u ∈ units, u.identifier = id ∧ D' u) ↔
        ∃ u ∈ units.filter (fun u => t.locate u.path ≠ .ok parts), u.identifier = id ∧ D u := by
    simp only [List.mem_filter, decide_eq_true_eq]
    constructor
    · rintro ⟨u, hu, hid, hgiven⟩
      have hfile : t.locate u.path ≠ .ok parts := fun hfile => hlost u hfile hgiven
      exact ⟨u, ⟨hu, hfile⟩, hid, (hkept u hfile).1 hgiven⟩
    · rintro ⟨u, ⟨hu, hfile⟩, hid, hgiven⟩
      exact ⟨u, hu, hid, (hkept u hfile).2 hgiven⟩
  constructor
  · intro a b
    rw [hs.edges]
    refine and_congr_right fun _ => and_congr_right fun _ => hothers ?_ ?_ a
    · rintro u hfile ⟨targets, htargets, -⟩
      exact h.not_opens hfile ((exists_dependenciesIn_ok _).1 ⟨targets, htargets⟩).1
    · intro u hfile
      rw [h.dependenciesIn_eq hroot hfile]
  · intro id
    rw [hs.entryPoints]
    refine hothers ?_ ?_ id
    · intro u hfile hmarked
      exact h.not_opens hfile (exists_entryPointIn_ok.1 ⟨true, hmarked⟩).1
    · intro u hfile
      rw [h.entryPointIn_eq hfile]

end

end Examiner.SpoilsSource

/-! ## Surveys of any tree -/

namespace Survey

/-- A survey succeeds exactly if nothing stops it before files are examined. Its graph has the
discovered units as nodes, and the edges and entry points that the single files give. A file gives
none exactly if it cannot be opened or the manifest that its language asks for cannot be used; a
manifest without fields is as none, and so is one of Go that is no text. When a source file ceases
to be a text, the survey loses what this file gave and nothing else. -/
theorem succeeds_unless_hindered {e : Examiner} (he : e.analyzer = []) (t : FileTree)
    (repository : Path) :
    (∀ st, (∃ s after, (take e t repository).run st = (.ok s, after)) ↔
      e.Unhindered t repository) ∧
    (∀ st s after, (take e t repository).run st = (.ok s, after) →
      s.Covers e t repository ∧
      ∃ root, e.sourceRoot (.ofFiles t) repository = .ok root ∧ s.GivenBy e t root s.units ∧
        (e.language = .go → ¬t.Readable (root.child "go.mod") →
          ∀ id, s.graph.dependencies id = [])) ∧
    (∀ root known file,
      ((∃ targets, e.dependenciesIn t root known file = .ok targets) ↔ t.Opens file ∧
        (e.language = .go → t.TextIfFile (root.child "go.mod")) ∧
        (e.language = .typescript →
          t.TellsFramework e.tools.limits (Examiner.scriptProject t file))) ∧
      ((∃ marked, e.entryPointIn t file = .ok marked) ↔ t.Opens file ∧
        (e.language = .typescript →
          t.TellsFramework e.tools.limits (Examiner.scriptProject t file)))) ∧
    (∀ dir, t.TellsFramework e.tools.limits dir →
      (∀ text fields, t.Holds (dir.child Framework.manifestName) text →
        Json.readWithin String e.tools.limits text ≠ .ok (.object fields)) →
      Framework.ofProject e.tools.limits t dir = .ok (.unknown .empty)) ∧
    ∀ t' parts, e.SpoilsSource repository t t' parts →
      (e.Unhindered t' repository ↔ e.Unhindered t repository) ∧
      ∀ st st' s s' after after', (take e t repository).run st = (.ok s, after) →
        (take e t' repository).run st' = (.ok s', after') →
        s'.units = s.units ∧ s'.graph.nodes = s.graph.nodes ∧
        ∃ root, e.sourceRoot (.ofFiles t) repository = .ok root ∧
          s'.GivenBy e t root (s.units.filter fun u => t.locate u.path ≠ .ok parts) := by
  refine ⟨exists_run_take_ok, ?_, fun root known file => ⟨Examiner.exists_dependenciesIn_ok known,
    Examiner.exists_entryPointIn_ok⟩, fun dir => Framework.ofProject_eq_unknown, ?_⟩
  · intro st s after hrun
    obtain ⟨root, hroot, hgiven, -⟩ := ensures_take_given he st s after hrun
    refine ⟨ensures_take_covers e t repository st s after hrun, root, hroot, hgiven, ?_⟩
    intro hlanguage hmanifest id
    refine List.eq_nil_iff_forall_not_mem.2 fun target htarget => ?_
    obtain ⟨-, -, u, -, -, targets, htargets, hmem⟩ := (hgiven.edges id target).1 htarget
    rw [Examiner.dependenciesIn_eq_nil hlanguage hmanifest htargets] at hmem
    exact List.not_mem_nil hmem
  · intro t' parts hspoils
    refine ⟨hspoils.unhindered_iff, fun st st' s s' after after' hrun hrun' => ?_⟩
    obtain ⟨root, hroot, -, g, hg, hnodes⟩ := ensures_take_given he st s after hrun
    obtain ⟨root', hroot', hgiven, g', hg', hnodes'⟩ := ensures_take_given he st' s' after' hrun'
    obtain rfl : root = root' :=
      Except.ok.inj (hroot.symm.trans (hspoils.sourceRoot_eq.symm.trans hroot'))
    have hunits : s'.units = s.units :=
      hspoils.units_eq (ensures_take_covers e t repository st s after hrun)
        (ensures_take_covers e t' repository st' s' after' hrun')
    rw [hunits] at hgiven hg'
    rw [hspoils.nodesOf_eq] at hg'
    obtain rfl : g = g' := Except.ok.inj (hg.symm.trans hg')
    exact ⟨hunits, hnodes'.trans hnodes.symm, root, hroot, hspoils.givenBy hroot hgiven⟩

/-- The second file of a pair is a source file that is spoiled. -/
theorem spoilsSource_pair :
    Examiner.SpoilsSource ⟨.go, .standard, []⟩ ⟨true, []⟩ pairOfFiles pairWithSpoilt ["b.go"] where
  toSpoils := FileTree.spoils_put (by rfl) (by decide +kernel)
  manifests := nofun
  module _ := by decide +kernel
  ignoreFile := by decide +kernel
  size content tree content' tree' hold hnew := by
    cases hold
    cases hnew
    exact iff_of_true (by decide +kernel) (by decide +kernel)

/-- A survey of two files of one package comes to an end when the second one ceases to be a text.
The units remain, with what the first file gives. -/
theorem succeeds_unless_hindered_of_pair :
    ∃ s after, (take ⟨.go, .standard, []⟩ pairWithSpoilt ⟨true, []⟩).run ⟨.empty, none⟩ =
      (.ok s, after) ∧
      s.units = [⟨⟨true, ["a.go"]⟩, "a"⟩, ⟨⟨true, ["b.go"]⟩, "b"⟩] ∧
      s.GivenBy ⟨.go, .standard, []⟩ pairOfFiles ⟨true, []⟩ [⟨⟨true, ["a.go"]⟩, "a"⟩] := by
  have hdiscovered : Examiner.discover ⟨.go, .standard, []⟩ (.ofFiles pairOfFiles) ⟨true, []⟩ =
      .ok [⟨true, ["a.go"]⟩, ⟨true, ["b.go"]⟩] := by
    rfl
  have hinside : ∀ p ∈ [(⟨true, ["a.go"]⟩ : Path), ⟨true, ["b.go"]⟩],
      ((pairOfFiles.resolve p).relativeTo? (pairOfFiles.resolve ⟨true, []⟩)).isSome = true := by
    decide +kernel
  have hunhindered : Examiner.Unhindered ⟨.go, .standard, []⟩ pairOfFiles ⟨true, []⟩ :=
    Examiner.unhindered_iff.2
      ⟨_, hdiscovered, fun p hp => Option.isSome_iff_exists.1 (hinside p hp)⟩
  obtain ⟨hsucceeds, hmade, -, -, hlost⟩ :=
    succeeds_unless_hindered (e := ⟨.go, .standard, []⟩) rfl pairOfFiles ⟨true, []⟩
  obtain ⟨s, after, hrun⟩ := (hsucceeds ⟨.empty, none⟩).2 hunhindered
  have hunits : s.units = [⟨⟨true, ["a.go"]⟩, "a"⟩, ⟨⟨true, ["b.go"]⟩, "b"⟩] := by
    obtain ⟨root, files, hroot, hfiles, hunits⟩ := (hmade _ s after hrun).1.found
    obtain rfl := Except.ok.inj hroot
    obtain rfl := Except.ok.inj (hdiscovered.symm.trans hfiles)
    rw [hunits]
    decide +kernel
  obtain ⟨hstopped, hremains⟩ := hlost pairWithSpoilt ["b.go"] spoilsSource_pair
  obtain ⟨s', after', hrun'⟩ := (exists_run_take_ok ⟨.empty, none⟩).2 (hstopped.2 hunhindered)
  obtain ⟨hsame, -, root, hroot, hgiven⟩ := hremains _ _ s s' after after' hrun hrun'
  obtain rfl := Except.ok.inj hroot
  rw [hunits] at hsame hgiven
  have hkept : [(⟨⟨true, ["a.go"]⟩, "a"⟩ : SourceUnit), ⟨⟨true, ["b.go"]⟩, "b"⟩].filter
      (fun u => pairOfFiles.locate u.path ≠ .ok ["b.go"]) = [⟨⟨true, ["a.go"]⟩, "a"⟩] := by
    decide +kernel
  rw [hkept] at hgiven
  exact ⟨s', after', hrun', hsame, hgiven⟩

/-- A script project whose manifest lists a number as a dependency. -/
def numberedProject : FileTree :=
  ⟨⟨[(["package.json"], .file "\x7b\"dependencies\": [1]\x7d".toUTF8 none),
    (["a.ts"], .file "".toUTF8 (some (.node "program" true "" 0 0 [])))]⟩, []⟩

/-- A Go file beside an ignore file that is no text. -/
def unreadableRules : FileTree :=
  ⟨⟨[([".gitignore"], .file ⟨#[255]⟩ none), (["a.go"], parameterFile)]⟩, []⟩

/-- A manifest whose dependencies are numbers stops a survey, and so does an ignore file that is no
text. -/
theorem stopped_by_malformed_files :
    (∃ f after, (take ⟨.typescript, .standard, []⟩ numberedProject ⟨true, []⟩).run ⟨.empty, none⟩ =
      (.error f, after)) ∧
    ∃ f after, (take ⟨.go, .standard, []⟩ unreadableRules ⟨true, []⟩).run ⟨.empty, none⟩ =
      (.error f, after) := by
  have hnone {α : Type} {o : Outcome α} (h : o.toBool = false) : ¬∃ a, o = .ok a := by
    rintro ⟨a, rfl⟩
    cases h
  exact ⟨exists_run_take_error (hnone (by decide +kernel)) _,
    exists_run_take_error (hnone (by decide +kernel)) _⟩

end Survey

end CodeAtlas
