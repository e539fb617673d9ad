import CodeAtlas.Proofs.Graph.Edges
import CodeAtlas.Proofs.Source.Found
import CodeAtlas.Proofs.Source.Identified
import CodeAtlas.Proofs.Source.Spoiled

/-!
# What each file gives to a survey

The edges of a surveyed graph are those that single files give, and so are its entry points. A file
that gives none takes nothing from another one. This file says which files give something, and what
remains of a survey when one source file ceases to be a text.
-/

namespace CodeAtlas

open Fallible

/-! ## The answers of one file -/

namespace Examiner

variable {e : Examiner} {t : FileTree} {root file : Path}

/-- The known units that a file depends on, as they follow from the files alone. -/
def dependenciesIn (e : Examiner) (t : FileTree) (root : Path) (known : List String)
    (file : Path) : Outcome (List String) :=
  match e.language with
  | .java => do return (JavaFile.ofSource (← SourceFile.read t file)).dependencies known
  | .go => do
    let g := GoFile.ofSource (← SourceFile.read t file)
    return g.dependencies (← GoFile.modulePath t root) (fileIdentifier t file root) known
  | .python => do
    return (PythonModule.ofSource (← SourceFile.read t file)).dependencies t root known
  | .typescript => do
    return moduleDependencies t file root known (← analyzeModule e.tools.limits t file)

/-- Whether a file is an entry point, as it follows from the files alone. -/
def entryPointIn (e : Examiner) (t : FileTree) (file : Path) : Outcome Bool :=
  match e.language with
  | .java => do return (JavaFile.ofSource (← SourceFile.read t file)).isEntryPoint
  | .go => do return (GoFile.ofSource (← SourceFile.read t file)).isEntryPoint
  | .python => do return (PythonModule.ofSource (← SourceFile.read t file)).isEntryPoint
  | .typescript => do return (← analyzeModule e.tools.limits t file).isEntryPoint

theorem dependencies_eq (he : e.analyzer = []) (t : FileTree) (root : Path) (known : List String)
    (file : Path) :
    e.dependencies (.ofFiles t) file root known =
      Examining.ofOutcome (e.dependenciesIn t root known file) := by
  have hanalysis := moduleAnalysis_eq he (.ofFiles t) file
  obtain ⟨language, tools⟩ := e
  unfold dependencies dependenciesIn
  cases language with
  | java | go | python => rfl
  | typescript =>
    dsimp only
    rw [hanalysis]
    exact ofOutcome_map _ _

theorem isEntryPoint_eq (he : e.analyzer = []) (t : FileTree) (file : Path) :
    e.isEntryPoint (.ofFiles t) file = Examining.ofOutcome (e.entryPointIn t file) := by
  have hanalysis := moduleAnalysis_eq he (.ofFiles t) file
  obtain ⟨language, tools⟩ := e
  unfold isEntryPoint entryPointIn
  cases language with
  | java | go | python => rfl
  | typescript =>
    dsimp only
    rw [hanalysis]
    exact ofOutcome_map _ _

/-- A file has dependencies, perhaps none, exactly if it can be opened and the manifest that its
language consults for them is sound. -/
theorem exists_dependenciesIn_ok (known : List String) :
    (∃ targets, e.dependenciesIn t root known file = .ok targets) ↔ t.Opens file ∧
      (e.language = .go → t.TextIfFile (root.child "go.mod")) ∧
      (e.language = .typescript → t.TellsFramework e.tools.limits (scriptProject t file)) := by
  obtain ⟨language, tools⟩ := e
  unfold dependenciesIn
  cases language with
  | java | python =>
    rw [and_iff_left ⟨nofun, nofun⟩]
    exact Outcome.exists_bind_pure_ok
  | go =>
    simp only [reduceCtorEq, true_implies, false_implies, and_true]
    exact GoFile.exists_read_modulePath_ok _
  | typescript =>
    simp only [reduceCtorEq, true_implies, false_implies, true_and,
      ← Framework.exists_ofProject_ok, ← exists_analyzeModule_ok_iff]
    exact Outcome.exists_bind_pure_ok

theorem exists_entryPointIn_ok :
    (∃ marked, e.entryPointIn t file = .ok marked) ↔ t.Opens file ∧
      (e.language = .typescript → t.TellsFramework e.tools.limits (scriptProject t file)) := by
  obtain ⟨language, tools⟩ := e
  unfold entryPointIn
  cases language with
  | java | go | python =>
    rw [and_iff_left nofun]
    exact Outcome.exists_bind_pure_ok
  | typescript =>
    dsimp only
    rw [forall_prop_of_true rfl, ← Framework.exists_ofProject_ok, ← exists_analyzeModule_ok_iff]
    exact Outcome.exists_bind_pure_ok

/-- Without a module no file depends on another one. -/
theorem dependenciesIn_eq_nil (hlanguage : e.language = .go)
    (hmanifest : ¬t.Readable (root.child "go.mod")) {known targets : List String}
    (h : e.dependenciesIn t root known file = .ok targets) : targets = [] := by
  have htext := ((exists_dependenciesIn_ok known).1 ⟨targets, h⟩).2.1 hlanguage
  have hmodule : GoFile.modulePath t root = .ok "" := by
    unfold GoFile.modulePath
    exact if_neg fun hfile => hmanifest (htext hfile)
  unfold dependenciesIn at h
  rw [hlanguage] at h
  obtain ⟨f, -, h⟩ := Outcome.bind_eq_ok.1 h
  rw [hmodule] at h
  obtain rfl := Except.ok.inj h
  have hpackages : (GoFile.ofSource f).imports.values.filterMap (GoFile.packageOf? "") = [] :=
    List.filterMap_eq_nil_iff.2 fun _ _ => rfl
  unfold GoFile.dependencies
  rw [hpackages]
  rfl

end Examiner

/-! ## What is added up -/

theorem Text.mem_sortedSet (xs : List String) {x : String} : x ∈ sortedSet xs ↔ x ∈ xs := by
  have hrepeats (xs : List String) : x ∈ dropRepeats xs ↔ x ∈ xs := by
    induction xs using dropRepeats.induct with
    | case1 a rest ih =>
      rw [dropRepeats, if_pos rfl, ih]
      simp
    | case2 a b rest hne ih =>
      rw [dropRepeats, if_neg hne, List.mem_cons, ih, ← List.mem_cons]
    | case3 xs h => rw [dropRepeats]; exact h
  exact (hrepeats _).trans (sorted_perm xs).mem_iff

namespace Survey

variable {e : Examiner} {t : FileTree} {root repository : Path}

theorem mem_dependencies_addDependencies (g : Graph) (id : String) (targets : List String)
    (a b : String) :
    b ∈ (addDependencies g id targets).dependencies a ↔ b ∈ g.dependencies a ∨
      a = id ∧ b ∈ targets ∧ a ≠ b ∧ g.contains a = true ∧ g.contains b = true := by
  unfold addDependencies
  simp only [← Text.mem_sortedSet targets]
  induction Text.sortedSet targets generalizing g with
  | nil => simp
  | cons target rest ih =>
    have hnodes := g.nodes_addDependency id target
    rw [List.foldl_cons, ih, Graph.mem_dependencies_addDependency, Graph.apart_iff_ne,
      Graph.contains_congr hnodes, Graph.contains_congr hnodes, List.mem_cons]
    constructor
    · rintro ((h | ⟨rfl, rfl, hrest⟩) | ⟨ha, hb, hrest⟩)
      · exact Or.inl h
      · exact Or.inr ⟨rfl, Or.inl rfl, hrest⟩
      · exact Or.inr ⟨ha, Or.inr hb, hrest⟩
    · rintro (h | ⟨rfl, rfl | hb, hrest⟩)
      · exact Or.inl (Or.inl h)
      · exact Or.inl (Or.inr ⟨rfl, rfl, hrest⟩)
      · exact Or.inr ⟨rfl, hb, hrest⟩

/-- The graph with the dependencies that a unit's file gives, if it gives any. -/
def addGiven (e : Examiner) (t : FileTree) (root : Path) (known : List String) (g : Graph)
    (u : SourceUnit) : Graph :=
  match e.dependenciesIn t root known u.path with
  | .ok targets => addDependencies g u.identifier targets
  | .error _ => g

/-- The graph with a unit as an entry point, if its file says that it is one. -/
def markGiven (e : Examiner) (t : FileTree) (g : Graph) (u : SourceUnit) : Graph :=
  match e.entryPointIn t u.path with
  | .ok true => g.markEntryPoint u.identifier
  | _ => g

theorem nodes_addGiven (e : Examiner) (t : FileTree) (root : Path) (known : List String)
    (g : Graph) (u : SourceUnit) :
    (addGiven e t root known g u).nodes = g.nodes ∧
      (addGiven e t root known g u).entryPoints = g.entryPoints := by
  unfold addGiven
  split
  · next targets _ =>
    obtain ⟨outgoing, incoming, h⟩ := exists_addDependencies_eq g u.identifier targets
    rw [h]
    exact ⟨rfl, rfl⟩
  · exact ⟨rfl, rfl⟩

/-- Each unit adds the edges that its own file gives, and no others. -/
theorem mem_dependencies_foldl_addGiven (known : List String) (us : List SourceUnit) (g : Graph)
    (a b : String) :
    b ∈ (us.foldl (addGiven e t root known) g).dependencies a ↔ b ∈ g.dependencies a ∨
      (a ≠ b ∧ g.contains a = true ∧ g.contains b = true ∧ ∃ u ∈ us, u.identifier = a ∧
        ∃ targets, e.dependenciesIn t root known u.path = .ok targets ∧ b ∈ targets) := by
  induction us generalizing g with
  | nil => simp
  | cons u rest ih =>
    have hnodes := (nodes_addGiven e t root known g u).1
    have hown : b ∈ (addGiven e t root known g u).dependencies a ↔ b ∈ g.dependencies a ∨
        (a ≠ b ∧ g.contains a = true ∧ g.contains b = true ∧ u.identifier = a ∧
          ∃ targets, e.dependenciesIn t root known u.path = .ok targets ∧ b ∈ targets) := by
      unfold addGiven
      cases e.dependenciesIn t root known u.path with
      | error f => simp
      | ok targets =>
        dsimp only
        rw [mem_dependencies_addDependencies]
        simp only [Except.ok.injEq, exists_eq_left']
        refine or_congr_right ⟨?_, ?_⟩
        · rintro ⟨rfl, hb, hrest⟩
          exact ⟨hrest.1, hrest.2.1, hrest.2.2, rfl, hb⟩
        · rintro ⟨hne, ha, hb, rfl, hmem⟩
          exact ⟨rfl, hmem, hne, ha, hb⟩
    rw [List.foldl_cons, ih, hown, Graph.contains_congr hnodes, Graph.contains_congr hnodes]
    simp only [List.mem_cons, exists_eq_or_imp, and_or_left, or_assoc]

theorem isEntryPoint_markEntryPoint (g : Graph) (a b : String) :
    (g.markEntryPoint a).nodes = g.nodes ∧
      ((g.markEntryPoint a).isEntryPoint b = true ↔
        g.isEntryPoint b = true ∨ (g.contains b = true ∧ a = b)) := by
  unfold Graph.markEntryPoint
  split
  · next hknown =>
    refine ⟨rfl, ?_⟩
    unfold Graph.isEntryPoint
    dsimp only
    rw [List.contains_iff_mem, List.contains_iff_mem, mem_appendNew]
    refine or_congr_right ⟨?_, fun h => h.2.symm⟩
    rintro rfl
    exact ⟨hknown, rfl⟩
  · next hnew =>
    refine ⟨rfl, (or_iff_left ?_).symm⟩
    rintro ⟨hknown, rfl⟩
    exact hnew hknown

/-- Each unit is marked if its own file says so. -/
theorem isEntryPoint_foldl_markGiven (us : List SourceUnit) (g : Graph) (id : String) :
    (us.foldl (markGiven e t) g).isEntryPoint id = true ↔ g.isEntryPoint id = true ∨
      (g.contains id = true ∧ ∃ u ∈ us, u.identifier = id ∧
        e.entryPointIn t u.path = .ok true) := by
  induction us generalizing g with
  | nil => simp
  | cons u rest ih =>
    obtain ⟨hnodes, hown⟩ : (markGiven e t g u).nodes = g.nodes ∧
        ((markGiven e t g u).isEntryPoint id = true ↔ g.isEntryPoint id = true ∨
          (g.contains id = true ∧ u.identifier = id ∧ e.entryPointIn t u.path = .ok true)) := by
      unfold markGiven
      split
      · next hmarked =>
        rw [hmarked, and_iff_left rfl]
        exact isEntryPoint_markEntryPoint g u.identifier id
      · next hother => exact ⟨rfl, (or_iff_left fun h => hother h.2.2).symm⟩
    rw [List.foldl_cons, ih, hown, Graph.contains_congr hnodes]
    simp only [List.mem_cons, exists_eq_or_imp, and_or_left, or_assoc]

theorem outgoing_foldl_markGiven (e : Examiner) (t : FileTree) (us : List SourceUnit)
    (g : Graph) :
    (us.foldl (markGiven e t) g).nodes = g.nodes ∧
      (us.foldl (markGiven e t) g).outgoing = g.outgoing := by
  induction us generalizing g with
  | nil => exact ⟨rfl, rfl⟩
  | cons u rest ih =>
    have hown : (markGiven e t g u).nodes = g.nodes ∧
        (markGiven e t g u).outgoing = g.outgoing := by
      unfold markGiven
      split
      · exact ⟨Graph.nodes_markEntryPoint .., Graph.outgoing_markEntryPoint ..⟩
      · exact ⟨rfl, rfl⟩
    exact ⟨(ih _).1.trans hown.1, (ih _).2.trans hown.2⟩

theorem nodes_foldl_addGiven (e : Examiner) (t : FileTree) (root : Path) (known : List String)
    (us : List SourceUnit) (g : Graph) :
    (us.foldl (addGiven e t root known) g).nodes = g.nodes ∧
      (us.foldl (addGiven e t root known) g).entryPoints = g.entryPoints := by
  induction us generalizing g with
  | nil => exact ⟨rfl, rfl⟩
  | cons u rest ih =>
    obtain ⟨hnodes, hentries⟩ := nodes_addGiven e t root known g u
    exact ⟨(ih _).1.trans hnodes, (ih _).2.trans hentries⟩

/-! ## The passes of a survey -/

section

variable (he : e.analyzer = [])
include he

theorem ensures_dependencyPass_given (known : List String) (total done : Nat)
    (us : List SourceUnit) (g : Graph) :
    Ensures (fun r => r.1 = us.foldl (addGiven e t root known) g)
      (dependencyPass e (.ofFiles t) root known total done us g) := by
  induction us generalizing done g with
  | nil => exact .pure rfl
  | cons u us ih =>
    unfold dependencyPass
    have hanswer : Ensures (fun o => o = e.dependenciesIn t root known u.path)
        (e.dependencies (.ofFiles t) u.path root known).attempt := by
      rw [Examiner.dependencies_eq he]
      intro st o after hrun
      exact (Except.ok.inj (Prod.mk.inj hrun).1).symm
    refine hanswer.bind fun o ho => ?_
    rw [List.foldl_cons]
    cases o with
    | ok targets =>
      have hstep : addGiven e t root known g u = addDependencies g u.identifier targets := by
        unfold addGiven
        rw [← ho]
      rw [hstep]
      exact (ih (done + 1) _).bind fun r hr => .pure hr
    | error f =>
      have hstep : addGiven e t root known g u = g := by
        unfold addGiven
        rw [← ho]
      rw [hstep]
      exact ih (done + 1) g

theorem ensures_entryPointPass_given (us : List SourceUnit) (g : Graph) :
    Ensures (fun h => h = us.foldl (markGiven e t) g) (entryPointPass e (.ofFiles t) us g) := by
  induction us generalizing g with
  | nil => exact .pure rfl
  | cons u us ih =>
    unfold entryPointPass
    have hanswer : Ensures (fun o => o = e.entryPointIn t u.path)
        (e.isEntryPoint (.ofFiles t) u.path).attempt := by
      rw [Examiner.isEntryPoint_eq he]
      intro st o after hrun
      exact (Except.ok.inj (Prod.mk.inj hrun).1).symm
    refine hanswer.bind fun o ho => ?_
    rw [List.foldl_cons]
    have hother (h : o ≠ .ok true) : markGiven e t g u = g := by
      rw [ho] at h
      unfold markGiven
      split
      · next hmarked => exact absurd hmarked h
      · rfl
    split
    · have hstep : markGiven e t g u = g.markEntryPoint u.identifier := by
        unfold markGiven
        rw [← ho]
      rw [hstep]
      exact ih _
    · next hmarked =>
      rw [hother hmarked]
      exact ih g

end

/-- Whether a survey has the edges and the entry points that the files of some units give. -/
structure GivenBy (e : Examiner) (t : FileTree) (root : Path) (us : List SourceUnit) (s : Survey) :
    Prop where
  edges : ∀ a b, b ∈ s.graph.dependencies a ↔ a ≠ b ∧ s.graph.contains b = true ∧
    ∃ u ∈ us, u.identifier = a ∧
      ∃ targets, e.dependenciesIn t root s.graph.identifiers u.path = .ok targets ∧ b ∈ targets
  entryPoints : ∀ id, s.graph.isEntryPoint id = true ↔
    ∃ u ∈ us, u.identifier = id ∧ e.entryPointIn t u.path = .ok true

/-- Units that have been made nodes have no edges yet, and none is an entry point. -/
theorem plain_nodesOf {units : List SourceUnit} {g : Graph}
    (h : nodesOf t repository units = .ok g) : g.outgoing = .empty ∧ g.entryPoints = [] := by
  refine nodesOf_induction (P := fun _ g => g.outgoing = .empty ∧ g.entryPoints = []) ⟨rfl, rfl⟩
    (fun _ start u file hstart _ => ?_) h
  obtain ⟨nodes, hadded⟩ := start.exists_addNode_eq u.identifier file
  rw [hadded]
  exact hstart

/-- Both passes together leave the nodes as they are, with the edges and entry points that the files
of the units give. -/
theorem givenBy_of_passes (root : Path) {units : List SourceUnit} {g : Graph} {s : Survey}
    (hg : nodesOf t repository units = .ok g)
    (hs : s.graph = units.foldl (markGiven e t) (units.foldl (addGiven e t root g.identifiers) g)) :
    s.graph.nodes = g.nodes ∧ s.GivenBy e t root units := by
  obtain ⟨haddedNodes, haddedEntries⟩ := nodes_foldl_addGiven e t root g.identifiers units g
  obtain ⟨hmarkedNodes, hmarkedOutgoing⟩ := outgoing_foldl_markGiven e t units
    (units.foldl (addGiven e t root g.identifiers) g)
  obtain ⟨hplainOutgoing, hplainEntries⟩ := plain_nodesOf hg
  have hnodes : s.graph.nodes = g.nodes := by rw [hs, hmarkedNodes, haddedNodes]
  have hcontains {u : SourceUnit} (hu : u ∈ units) : g.contains u.identifier = true :=
    ((nodesAre_nodesOf hg).contains _).2 (List.mem_map_of_mem hu)
  refine ⟨hnodes, fun a b => ?_, fun id => ?_⟩
  · have hadded : s.graph.dependencies a =
        (units.foldl (addGiven e t root g.identifiers) g).dependencies a := by
      unfold Graph.dependencies
      rw [hs, hmarkedOutgoing]
    have hnone : g.dependencies a = [] := by
      unfold Graph.dependencies
      rw [hplainOutgoing, Dict.getD_empty]
    have hknown : s.graph.identifiers = g.identifiers := congrArg Dict.keys hnodes
    rw [hadded, hknown, Graph.contains_congr hnodes, mem_dependencies_foldl_addGiven, hnone,
      or_iff_right List.not_mem_nil]
    refine and_congr_right fun _ => ⟨And.right, fun hrest => ⟨?_, hrest⟩⟩
    obtain ⟨u, hu, rfl, -⟩ := hrest.2
    exact hcontains hu
  · have hnone : ¬(units.foldl (addGiven e t root g.identifiers) g).isEntryPoint id = true := by
      unfold Graph.isEntryPoint
      rw [haddedEntries, hplainEntries]
      exact Bool.false_ne_true
    rw [hs, isEntryPoint_foldl_markGiven, or_iff_right hnone, Graph.contains_congr haddedNodes]
    refine ⟨And.right, fun hrest => ⟨?_, hrest⟩⟩
    obtain ⟨u, hu, rfl, -⟩ := hrest
    exact hcontains hu

/-- A survey has as nodes the units of the discovered files, and as edges and entry points what the
files of these units give. -/
theorem ensures_take_given (he : e.analyzer = []) :
    Ensures (fun s => ∃ root, e.sourceRoot (.ofFiles t) repository = .ok root ∧
      s.GivenBy e t root s.units ∧
        ∃ g, nodesOf t repository s.units = .ok g ∧ s.graph.nodes = g.nodes)
      (take e t repository) := by
  unfold take
  refine Examining.ensures_inSession ?_
  refine (Examining.ensures_ofOutcome fun root hroot => hroot).bind fun root hroot => ?_
  refine (Ensures.trivial _).bind fun files _ => ?_
  dsimp only
  split
  · obtain ⟨hnodes, hgiven⟩ := givenBy_of_passes (e := e) (t := t) root (g := .empty)
      (s := ⟨.empty, [], [.begins "Discovering files", .ends "Discovering files"]⟩)
      (show nodesOf t repository [] = .ok .empty from rfl) rfl
    exact .pure ⟨root, hroot, hgiven, .empty, rfl, hnodes⟩
  · generalize unitsOf e t root files = units
    refine (Examining.ensures_ofOutcome fun g hg => hg).bind fun g hg => ?_
    refine (ensures_dependencyPass_given he g.identifiers _ 0 units g).bind fun r hr => ?_
    refine (ensures_entryPointPass_given he units r.1).bind fun h hh => ?_
    obtain ⟨hnodes, hgiven⟩ := givenBy_of_passes (e := e) root (s := ⟨h, units, _⟩) hg (hr ▸ hh)
    exact .pure ⟨root, hroot, hgiven, g, hg, hnodes⟩

end Survey

end CodeAtlas
