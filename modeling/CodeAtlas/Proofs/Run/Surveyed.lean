import CodeAtlas.Proofs.Graph.Bare
import CodeAtlas.Proofs.Run.Steps

/-!
# What surveys find

A survey builds a graph from the files of a repository, and extraction describes its nodes. This
file says what has to be shown of the single steps for a property of every survey. Whatever the
language, the files and the answers of an analyzer, the graph is bare: it is tied to no records
and has no enriched texts.
-/

namespace CodeAtlas

open Fallible

/-! ## Methods -/

theorem Method.plain_of_mem_map {α : Type} {f : α → Method} {xs : List α}
    (hf : ∀ x, (f x).Plain) : ∀ m ∈ xs.map f, m.Plain := by
  intro m hm
  obtain ⟨x, -, rfl⟩ := List.mem_map.1 hm
  exact hf x

theorem JavaFile.plain_extractedMethods (j : JavaFile) : ∀ m ∈ j.extractedMethods, m.Plain := by
  refine Method.plain_of_mem_map fun m => ?_
  split <;> exact Method.plain_extracted ..

theorem GoFile.plain_extractedMethods (g : GoFile) : ∀ m ∈ g.extractedMethods, m.Plain :=
  Method.plain_of_mem_map fun _ => Method.plain_extracted ..

theorem PythonModule.plain_extractedMethods (p : PythonModule) :
    ∀ m ∈ p.extractedMethods, m.Plain :=
  Method.plain_of_mem_map fun _ => Method.plain_extracted ..

theorem Examiner.plain_moduleMethods (a : ModuleAnalysis) :
    ∀ m ∈ Examiner.moduleMethods a, m.Plain :=
  Method.plain_of_mem_map fun _ => Method.plain_extracted ..

/-- Extraction gives no method a text, in no language. -/
theorem Examiner.ensures_methods (e : Examiner) (s : Sources) (file : Path) :
    Ensures (fun ms => ∀ m ∈ ms, m.Plain) (e.methods s file) := by
  unfold Examiner.methods
  split
  · refine Examining.ensures_ofOutcome fun ms hms => ?_
    obtain ⟨f, -, h⟩ := Outcome.bind_eq_ok.1 hms
    cases h
    exact JavaFile.plain_extractedMethods _
  · refine Examining.ensures_ofOutcome fun ms hms => ?_
    obtain ⟨f, -, h⟩ := Outcome.bind_eq_ok.1 hms
    cases h
    exact GoFile.plain_extractedMethods _
  · refine Examining.ensures_ofOutcome fun ms hms => ?_
    obtain ⟨f, -, h⟩ := Outcome.bind_eq_ok.1 hms
    cases h
    exact PythonModule.plain_extractedMethods _
  · exact (Ensures.trivial _).bind fun a _ => .pure (Examiner.plain_moduleMethods a)

/-! ## Graphs -/

namespace Graph.Bare

variable {g : Graph}

theorem addMethodParameters (hg : g.Bare) (id name : String) (targets : List String) :
    (g.addMethodParameters id name targets).Bare := by
  unfold Graph.addMethodParameters
  induction targets.zipIdx generalizing g with
  | nil => exact hg
  | cons t rest ih => exact ih (hg.addMethodParameter id name t.2 t.1)

/-- A described node has its unit's methods and still no description. -/
theorem describeNode (hg : g.Bare) (id : String) {facts : UnitFacts}
    (hfacts : ∀ m ∈ facts.methods, m.Plain) : (g.describeNode id facts).Bare := by
  unfold Graph.describeNode
  rw [hg.descriptions id]
  have hcleared := ((hg.setNodeInfo id facts.kind).setMethods id hfacts).clearMethodParameters id
  dsimp only
  generalize (((g.setNodeInfo id ⟨facts.kind, none⟩).setMethods id
    facts.methods).clearMethodParameters id) = h at hcleared ⊢
  induction facts.parameters.toList generalizing h with
  | nil => exact hcleared
  | cons p rest ih => exact ih _ (hcleared.addMethodParameters id p.1 p.2)

end Graph.Bare

namespace Survey

variable {t : FileTree} {repository : Path}

/-- What holds of no units, and remains when one more unit becomes a node, holds of all units
that were made nodes. -/
theorem nodesOf_induction {P : List SourceUnit → Graph → Prop} (hempty : P [] .empty)
    (hstep : ∀ done start u file, P done start → u.relativePath t repository = .ok file →
      P (done ++ [u]) (start.addNode u.identifier file))
    {units : List SourceUnit} {g : Graph} (hrun : nodesOf t repository units = .ok g) :
    P units g := by
  have hmain (done rest : List SourceUnit) (start : Graph) (hstart : P done start)
      (hrest : rest.foldlM (fun g u => do
        return g.addNode u.identifier (← u.relativePath t repository)) start = .ok g) :
      P (done ++ rest) g := by
    induction rest generalizing done start with
    | nil =>
      cases hrest
      rwa [List.append_nil]
    | cons u rest ih =>
      rw [List.foldlM_cons] at hrest
      obtain ⟨next, hnext, hrest⟩ := Outcome.bind_eq_ok.1 hrest
      obtain ⟨file, hfile, hnext⟩ := Outcome.bind_eq_ok.1 hnext
      cases hnext
      have hlater := ih (done ++ [u]) _ (hstep done start u file hstart hfile) hrest
      rwa [List.append_assoc] at hlater
  exact hmain [] units .empty hempty hrun

/-- What remains when an edge is added remains in the second pass. -/
theorem ensures_dependencyPass {P : Graph → Prop}
    (hedge : ∀ g a b, P g → P (g.addDependency a b)) (e : Examiner) (s : Sources) (root : Path)
    (known : List String) (total done : Nat) (units : List SourceUnit) {g : Graph} (hg : P g) :
    Ensures (fun r => P r.1) (dependencyPass e s root known total done units g) := by
  have hadded {g : Graph} (hg : P g) (id : String) (targets : List String) :
      P (addDependencies g id targets) := by
    unfold addDependencies
    induction Text.sortedSet targets generalizing g with
    | nil => exact hg
    | cons target rest ih => exact ih (hedge g id target hg)
  induction units generalizing done g with
  | nil => exact .pure hg
  | cons u us ih =>
    unfold dependencyPass
    refine (Ensures.trivial _).bind fun o _ => ?_
    cases o with
    | ok targets => exact (ih (done + 1) (hadded hg u.identifier targets)).bind fun r hr => .pure hr
    | error f => exact ih (done + 1) hg

/-- What remains when a node is marked remains in the third pass. -/
theorem ensures_entryPointPass {P : Graph → Prop} (hmark : ∀ g id, P g → P (g.markEntryPoint id))
    (e : Examiner) (s : Sources) (units : List SourceUnit) {g : Graph} (hg : P g) :
    Ensures P (entryPointPass e s units g) := by
  induction units generalizing g with
  | nil => exact .pure hg
  | cons u us ih =>
    unfold entryPointPass
    refine (Ensures.trivial _).bind fun o _ => ?_
    split
    · exact ih (hmark g u.identifier hg)
    · exact ih hg

/-- What holds of no units and the empty graph, and remains in every step of the three passes, holds
of the units of a survey and its graph. The units are those of the files that are discovered. -/
theorem ensures_take_induction {P : List SourceUnit → Graph → Prop} (e : Examiner)
    (hempty : P [] .empty)
    (hnode : ∀ done g u file, P done g → u.relativePath t repository = .ok file →
      P (done ++ [u]) (g.addNode u.identifier file))
    (hedge : ∀ units g a b, P units g → P units (g.addDependency a b))
    (hmark : ∀ units g id, P units g → P units (g.markEntryPoint id)) :
    Ensures (fun s => (∃ root files, e.sourceRoot (.ofFiles t) repository = .ok root ∧
      e.discover (.ofFiles t) repository = .ok files ∧ s.units = unitsOf e t root files) ∧
        P s.units s.graph) (take e t repository) := by
  unfold take
  refine Examining.ensures_inSession ?_
  refine (Examining.ensures_ofOutcome fun root hroot => hroot).bind fun root hroot => ?_
  refine (Examining.ensures_ofOutcome fun files hfiles => hfiles).bind fun files hfiles => ?_
  dsimp only
  split
  · next hnone =>
    rw [List.isEmpty_iff.1 hnone] at hfiles
    exact .pure ⟨⟨root, [], hroot, hfiles, rfl⟩, hempty⟩
  · refine (Examining.ensures_ofOutcome fun g hg => nodesOf_induction hempty hnode hg).bind
      fun g hg => ?_
    refine (ensures_dependencyPass (hedge _) e _ root _ _ 0 _ hg).bind fun r hr => ?_
    refine (ensures_entryPointPass (hmark _) e _ _ hr).bind fun g hg => ?_
    exact .pure ⟨⟨root, files, hroot, hfiles, rfl⟩, hg⟩

/-- The graph of a survey is bare. -/
theorem ensures_take (e : Examiner) (t : FileTree) (repository : Path) :
    Ensures (fun s => s.graph.Bare) (take e t repository) :=
  (ensures_take_induction (P := fun _ g => g.Bare) e .of_empty
    (fun _ _ u file hg _ => hg.addNode u.identifier file) (fun _ _ a b hg => hg.addDependency a b)
    fun _ _ id hg => hg.markEntryPoint id).mono fun _ hs => hs.2

end Survey

/-- The facts of a unit have methods without texts. -/
theorem UnitFacts.ensures_extract (e : Examiner) (s : Sources) (root : Path)
    (known : List String) (file : Path) :
    Ensures (fun f => ∀ m ∈ f.methods, m.Plain) (UnitFacts.extract e s root known file) := by
  unfold UnitFacts.extract
  refine (Ensures.trivial _).bind fun kind _ => ?_
  refine (e.ensures_methods s file).bind fun ms hms => ?_
  exact (Ensures.trivial _).bind fun targets _ => .pure hms

namespace Graph

theorem nodes_addMethodParameters (g : Graph) (id name : String) (targets : List String) :
    (g.addMethodParameters id name targets).nodes = g.nodes := by
  unfold addMethodParameters
  induction targets.zipIdx generalizing g with
  | nil => rfl
  | cons t rest ih => exact (ih _).trans (nodes_addMethodParameter ..)

/-- Describing a node adds no other. -/
theorem nodes_describeNode (g : Graph) (id : String) (facts : UnitFacts) :
    (g.describeNode id facts).nodes = g.nodes := by
  unfold describeNode
  dsimp only
  generalize hcleared : ((g.setNodeInfo id ⟨facts.kind, g.description? id⟩).setMethods id
    facts.methods).clearMethodParameters id = h
  have hnodes : h.nodes = g.nodes := by simp [← hcleared]
  rw [← hnodes]
  clear hcleared hnodes
  induction facts.parameters.toList generalizing h with
  | nil => rfl
  | cons p rest ih => exact (ih _).trans (nodes_addMethodParameters ..)

theorem ensures_describeUnits (e : Examiner) (s : Sources) (root : Path) (known : List String)
    (units : List SourceUnit) {g : Graph} (hg : g.Bare) (failed : List String) :
    Ensures (fun r => r.1.Bare ∧ r.1.nodes = g.nodes)
      (describeUnits e s root known units g failed) := by
  induction units generalizing g failed with
  | nil => exact .pure ⟨hg, rfl⟩
  | cons u us ih =>
    unfold describeUnits
    split
    · refine (Examining.ensures_attempt (UnitFacts.ensures_extract e s root known u.path)).bind
        fun o ho => ?_
      cases o with
      | ok facts =>
        refine (ih (hg.describeNode u.identifier (ho facts rfl)) failed).mono fun r hr => ?_
        exact ⟨hr.1, hr.2.trans (nodes_describeNode g u.identifier facts)⟩
      | error f => exact ih hg _
    · exact ih hg failed

/-- Describing the nodes of a bare graph leaves it bare, with the same nodes. -/
theorem ensures_describe {g : Graph} (hg : g.Bare) (e : Examiner) (s : Sources) (repository : Path)
    (units : Option (List SourceUnit)) (only : Option (List String)) :
    Ensures (fun r => r.1.Bare ∧ r.1.nodes = g.nodes)
      (g.describe e s repository units only) := by
  unfold describe
  refine Examining.ensures_inSession ?_
  refine (Ensures.trivial _).bind fun root _ => ?_
  refine (Ensures.trivial _).bind fun found _ => ?_
  exact ensures_describeUnits e s root _ _ hg []

end Graph

end CodeAtlas
