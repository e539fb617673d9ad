import CodeAtlas.Proofs.Graph.Reloaded
import CodeAtlas.Query.Result
import CodeAtlas.State.Basic

/-!
# Queries after a reload

A query sees of a graph its nodes, its edges in both directions, its marks and its labels. A
graph that is saved and reloaded shows all of them as before, except that the dependents of a
node come in the order of the nodes. So a reloaded project answers every query as a live one
whose dependents are put into that order.
-/

namespace CodeAtlas

namespace Graph

/-- Graphs of which queries see the same. -/
structure SeenAlike (g h : Graph) : Prop where
  nodes : h.nodes = g.nodes
  dependencies : ∀ id, h.dependencies id = g.dependencies id
  dependents : ∀ id, h.dependents id = g.dependents id
  entryPoints : h.entryPoints = g.entryPoints
  nodeInfo? : ∀ id, h.nodeInfo? id = g.nodeInfo? id
  methods : h.methods = g.methods

/-- The graph with the dependents of each node in the order of the nodes. -/
def inNodeOrder (g : Graph) : Graph :=
  { g with incoming := ⟨g.identifiers.map fun id =>
      (id, g.identifiers.filter fun a => id ∈ g.dependencies a)⟩ }

namespace SeenAlike

variable {g h : Graph}

theorem identifiers (hs : SeenAlike g h) : h.identifiers = g.identifiers := by
  unfold Graph.identifiers
  rw [hs.nodes]

theorem summaryFields (hs : SeenAlike g h) (id : String) :
    h.summaryFields id = g.summaryFields id := by
  unfold Graph.summaryFields Graph.kindJson Graph.description? Graph.sourceFile?
  rw [hs.nodeInfo?, hs.nodes]

theorem methodSummaries (hs : SeenAlike g h) (id : String) (logic : Bool) :
    h.methodSummaries id logic = g.methodSummaries id logic := by
  unfold Graph.methodSummaries
  rw [methodsOf_congr hs.methods]

theorem endpointItem (hs : SeenAlike g h) (logic : Bool) (id : String) (m : Method) :
    h.endpointItem logic id m = g.endpointItem logic id m := by
  unfold Graph.endpointItem Graph.kindJson
  rw [hs.nodeInfo?]

theorem classItem (hs : SeenAlike g h) (dependencies dependents methods : Bool) (id : String) :
    h.classItem dependencies dependents methods id =
      g.classItem dependencies dependents methods id := by
  unfold Graph.classItem Graph.isEntryPoint
  rw [hs.summaryFields, hs.entryPoints, hs.dependencies, hs.dependents, hs.methodSummaries]

theorem entryPointItem (hs : SeenAlike g h) (logic : Bool) (id : String) :
    h.entryPointItem logic id = g.entryPointItem logic id := by
  unfold Graph.entryPointItem Graph.kindJson Graph.description?
  rw [methodsOf_congr hs.methods, hs.nodeInfo?]

theorem overviewItem (hs : SeenAlike g h) (logic : Bool) (id : String) :
    h.overviewItem logic id = g.overviewItem logic id := by
  unfold Graph.overviewItem Graph.isEntryPoint
  rw [hs.summaryFields, hs.entryPoints, hs.dependencies, hs.dependents, hs.methodSummaries]

theorem findMethod? (hs : SeenAlike g h) (id name : String) :
    h.findMethod? id name = g.findMethod? id name := by
  unfold Graph.findMethod?
  rw [methodsOf_congr hs.methods]

theorem resolve? (hs : SeenAlike g h) (name : String) : h.resolve? name = g.resolve? name := by
  unfold Graph.resolve?
  rw [contains_congr hs.nodes, hs.identifiers]

theorem endpoints (hs : SeenAlike g h) : h.endpoints = g.endpoints := by
  unfold Graph.endpoints
  simp only [hs.identifiers, methodsOf_congr hs.methods]

/-- A view of a class is the same in graphs of which queries see the same. -/
theorem viewClass (hs : SeenAlike g h) (q : Query) (id : String) (view : Query.ClassView) :
    q.viewClass h id view = q.viewClass g id view := by
  cases view with
  | overview => simp only [Query.viewClass, hs.overviewItem]
  | methods => simp only [Query.viewClass, methodsOf_congr hs.methods]
  | dependencies => simp only [Query.viewClass, hs.dependencies, hs.summaryFields]
  | dependents => simp only [Query.viewClass, hs.dependents, hs.summaryFields]
  | method name => simp only [Query.viewClass, hs.findMethod?]

theorem navigateClass (hs : SeenAlike g h) (q : Query) (target : String) (rest : List String) :
    q.navigateClass h target rest = q.navigateClass g target rest := by
  have hcheck (id word : String) : h.checkItem id word = g.checkItem id word := by
    unfold Graph.checkItem
    rw [hs.findMethod?]
  unfold Query.navigateClass
  simp only [hs.resolve?, hcheck, hs.viewClass]

/-- A query is answered alike on graphs of which queries see the same. -/
theorem onGraph (hs : SeenAlike g h) (q : Query) : q.onGraph h = q.onGraph g := by
  have hclass := funext fun a => funext fun b => funext fun c => funext (hs.classItem a b c)
  have hentry := funext fun logic => funext (hs.entryPointItem logic)
  unfold Query.onGraph
  simp only [hs.endpoints, hs.endpointItem, hs.identifiers, hclass, hs.entryPoints, hentry,
    hs.navigateClass]

end SeenAlike

end Graph

/-! ## Registries -/

namespace Registry

/-- A name finds the published graph whatever it is, or it finds what does not depend on it. -/
theorem getByName?_put (r : Registry) (id name project : String) :
    (∀ g, (r.put id name g).getByName? project = some g) ∨
      ∃ found, ∀ g, (r.put id name g).getByName? project = found := by
  obtain ⟨⟨es⟩⟩ := r
  unfold put getByName? Dict.insert Dict.values
  dsimp only
  induction es with
  | nil =>
    cases hname : Text.sameIgnoringCase name project with
    | true => exact Or.inl fun g => by simp [Dict.put, hname]
    | false => exact Or.inr ⟨none, fun g => by simp [Dict.put, hname]⟩
  | cons e rest ih =>
    obtain ⟨a, p⟩ := e
    by_cases ha : a = id
    · cases hname : Text.sameIgnoringCase name project with
      | true => exact Or.inl fun g => by simp [Dict.put, ha, hname]
      | false => exact Or.inr ⟨_, fun g => by simp [Dict.put, ha, hname]; rfl⟩
    · cases hname : Text.sameIgnoringCase p.name project with
      | true => exact Or.inr ⟨some p.graph, fun g => by simp [Dict.put, ha, hname]⟩
      | false => simpa [Dict.put, ha, hname] using ih

/-- Projects whose graphs queries see alike answer every query alike. -/
theorem execute_put (r : Registry) (id name : String) {g h : Graph} (hs : g.SeenAlike h)
    (text : Option String) : (r.put id name h).execute text = (r.put id name g).execute text := by
  have hanswer (q : Query) : q.answer (r.put id name h) = q.answer (r.put id name g) := by
    unfold Query.answer
    rcases r.getByName?_put id name q.project with hput | ⟨found, hfound⟩
    · rw [hput, hput]
      exact hs.onGraph q
    · rw [hfound, hfound]
  unfold execute executeQuery
  simp only [hanswer]

end Registry

/-! ## Reloading -/

namespace Graph

theorem lookup_map_self {β : Type} (ids : List String) (f : String → β) (id : String) :
    Dict.lookup id (ids.map fun a => (a, f a)) = if id ∈ ids then some (f id) else none := by
  induction ids with
  | nil => rfl
  | cons a rest ih =>
    by_cases ha : a = id
    · simp [Dict.lookup, ha]
    · simp [Dict.lookup, ha, Ne.symm ha, ih]

/-- Ordered dependents are the nodes that depend on the node, as the nodes come. -/
theorem WellFormed.dependents_inNodeOrder {g : Graph} (hg : g.WellFormed) (id : String) :
    g.inNodeOrder.dependents id = g.identifiers.filter fun a => id ∈ g.dependencies a := by
  unfold dependents inNodeOrder Dict.getD Dict.get?
  dsimp only
  rw [lookup_map_self]
  split
  · rfl
  · next hid =>
    refine (List.filter_eq_nil_iff.2 fun a _ hmem => hid ?_).symm
    have hend := (hg.edges.ends a id (of_decide_eq_true hmem)).2
    exact (Dict.contains_iff_mem_keys _ id).1 hend

/-- The dependents of a node are put into another order, and none is lost or added. -/
theorem WellFormed.perm_dependents {g : Graph} (hg : g.WellFormed) (id : String) :
    (g.inNodeOrder.dependents id).Perm (g.dependents id) := by
  have hnodup : (g.identifiers.filter fun a => id ∈ g.dependencies a).Nodup :=
    hg.nodes_nodup.filter _
  rw [hg.dependents_inNodeOrder,
    List.perm_ext_iff_of_nodup hnodup (hg.edges.dependents_nodup id)]
  intro a
  rw [List.mem_filter, decide_eq_true_iff, ← hg.edges.mirrored]
  refine ⟨And.right, fun ha => ⟨?_, ha⟩⟩
  exact (Dict.contains_iff_mem_keys _ a).1 (hg.edges.ends a id ha).1

/-- Queries see of a graph that was read again what they see of the first one with the dependents
in the order of the nodes. -/
theorem Reread.seenAlike {g h : Graph} (hr : Reread g h) (hg : g.WellFormed) :
    g.inNodeOrder.SeenAlike h where
  nodes := hr.nodes
  dependencies := hr.dependencies
  dependents id := (hr.dependents id).trans (hg.dependents_inNodeOrder id).symm
  entryPoints := hr.entryPoints
  nodeInfo? := hr.nodeInfo?
  methods := hr.methods

/-- Putting dependents into the order in which they are shows queries nothing new. -/
theorem seenAlike_inNodeOrder {g : Graph}
    (hordered : ∀ id, g.inNodeOrder.dependents id = g.dependents id) :
    g.SeenAlike g.inNodeOrder :=
  ⟨rfl, fun _ => rfl, hordered, rfl, fun _ => rfl, rfl⟩

/-- Something is written even of the empty graph. -/
theorem isEmpty_toText (g : Graph) : g.toText.isEmpty = false := by
  rw [← Bool.not_eq_true, String.isEmpty_iff]
  intro hempty
  have hchars := congrArg String.toList hempty
  rw [toText, toJson, SpelledGraph.toJson, Json.pretty, String.toList_ofList,
    Json.prettyChars] at hchars
  cases hchars

end Graph

namespace Registry

/-- A saved graph is reloaded as one that queries see as the saved one, with its dependents in
the order of the nodes. -/
theorem exists_reload (r : Registry) (state : ProjectState) {g : Graph} (hg : g.WellFormed) :
    ∃ h, r.reload { state with graphText := some g.toText } =
        .ok (r.put state.id state.name h, true) ∧
      g.inNodeOrder.SeenAlike h := by
  obtain ⟨h, hread, hr, -⟩ := hg.ofText_toText
  refine ⟨h, ?_, hr.seenAlike hg⟩
  simp only [reload, reloadWith, g.isEmpty_toText, Bool.false_eq_true, if_false, hread]

/-- A project that is reloaded from its saved state answers every query as the live one would
with the dependents of each node put into the order of the nodes, so exactly as the live one
when they come in that order already. -/
theorem execute_reload (changes : List Mutation) (r : Registry) (state : ProjectState) :
    let g := Mutation.applyAll changes .empty
    ∃ reloaded,
      r.reload { state with graphText := some g.toText } = .ok (reloaded, true) ∧
      (∀ text, reloaded.execute text = (r.put state.id state.name g.inNodeOrder).execute text) ∧
      (∀ id, (g.inNodeOrder.dependents id).Perm (g.dependents id)) ∧
      ((∀ id, g.inNodeOrder.dependents id = g.dependents id) →
        ∀ text, reloaded.execute text = (r.put state.id state.name g).execute text) := by
  intro g
  have hg : g.WellFormed := .applyAll .of_empty changes
  obtain ⟨h, hreload, hseen⟩ := r.exists_reload state hg
  have hlike (text : Option String) := execute_put r state.id state.name hseen text
  refine ⟨_, hreload, hlike, hg.perm_dependents, fun hordered text => ?_⟩
  exact (hlike text).trans (execute_put r _ _ (Graph.seenAlike_inNodeOrder hordered) text)

/-- The classes that the items of an answer are about. -/
def answeredClasses (answer : Outcome QueryResult) : Option (List String) :=
  answer.toOption.map fun r =>
    r.items.filterMap fun v => (v.field? "className").bind fun name => name.asString.toOption

/-- A project that has not been examined. -/
def savedProject : ProjectState := .fresh "p1" "p" "/work" none

/-- A graph whose only node with dependents has one. -/
def chainChanges : List Mutation :=
  [.addNode "A" "a.java", .addNode "C" "c.java", .addDependency "A" "C"]

/-- A project whose dependents come in the order of its nodes answers alike after a reload. -/
theorem execute_reload_of_chain : ∃ reloaded,
    empty.reload { savedProject with
      graphText := some (Mutation.applyAll chainChanges .empty).toText } = .ok (reloaded, true) ∧
    ∀ text, reloaded.execute text =
      (empty.put "p1" "p" (Mutation.applyAll chainChanges .empty)).execute text := by
  have hordered (id : String) :
      (Mutation.applyAll chainChanges .empty).inNodeOrder.dependents id =
        (Mutation.applyAll chainChanges .empty).dependents id := by
    have hbefore : (Mutation.applyAll chainChanges .empty).incoming = ⟨[("C", ["A"])]⟩ := by
      decide +kernel
    have hafter : (Mutation.applyAll chainChanges .empty).inNodeOrder.incoming =
        ⟨[("A", []), ("C", ["A"])]⟩ := by
      decide +kernel
    unfold Graph.dependents
    rw [hbefore, hafter]
    by_cases hA : "A" = id
    · simp [Dict.getD, Dict.get?, Dict.lookup, ← hA]
    · simp [Dict.getD, Dict.get?, Dict.lookup, hA]
  obtain ⟨reloaded, hreload, -, -, hlike⟩ := execute_reload chainChanges empty savedProject
  exact ⟨reloaded, hreload, hlike hordered⟩

/-- A node on which a later node comes to depend before an earlier one does. -/
def crossedChanges : List Mutation :=
  [.addNode "A" "a.java", .addNode "B" "b.java", .addNode "C" "c.java",
    .addDependency "B" "C", .addDependency "A" "C"]

/-- A live project lists dependents as they came, and the reloaded one as the nodes come. -/
theorem dependents_reordered_by_reload : ∃ reloaded,
    empty.reload { savedProject with
      graphText := some (Mutation.applyAll crossedChanges .empty).toText } =
        .ok (reloaded, true) ∧
    answeredClasses ((empty.put "p1" "p" (Mutation.applyAll crossedChanges .empty)).execute
      (some "p:C:dependents")) = some ["B", "A"] ∧
    answeredClasses (reloaded.execute (some "p:C:dependents")) = some ["A", "B"] := by
  have hg : (Mutation.applyAll crossedChanges .empty).WellFormed := .applyAll .of_empty _
  obtain ⟨h, hreload, hseen⟩ := empty.exists_reload savedProject hg
  refine ⟨_, hreload, by decide +kernel, ?_⟩
  rw [execute_put _ _ _ hseen]
  decide +kernel

end Registry

end CodeAtlas
