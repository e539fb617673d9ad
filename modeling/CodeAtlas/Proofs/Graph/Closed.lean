import CodeAtlas.Graph.Document
import CodeAtlas.Proofs.Graph.Told

/-!
# Closed graphs

No reference leaves the nodes of a graph, whatever document it was read from and whatever changes
were made to it. A document may number its nodes, or leave them without a name; the one identifier
that stands out is what is no number, since comparing it with itself says that they differ.
-/

namespace CodeAtlas

variable {ι τ ν η π : Type} [DecidableEq ι] [DecidableEq τ] [DecidableEq ν] [DecidableEq π]
  [SelfEqual ι]

/-! ## Read graphs -/

section Reading

variable [Keyable ν] [Wording τ] [Coded ι τ] [Coded ν τ] [Coded η τ] [Coded π τ]

omit [Wording τ] in
/-- Each step of reading a document is an operation of the graph that takes no node away. -/
theorem SpelledGraph.Tells.grown {P : Json τ → Prop} {d d' : SpelledGraph ι τ ν η π}
    (h : d.Tells P d') {start : Graph ι τ ν η π} (hd : start.GrownFrom d.graph) :
    start.GrownFrom d'.graph := by
  cases h with
  | @node _ id file => exact hd.change (m := .addNode id file) rfl
  | classId id c => exact hd.change (m := .bindClassId id c) rfl
  | @info id kind description => exact hd.change (m := .setNodeInfo id ⟨kind, description⟩) rfl
  | @edge a _ b => exact hd.change (m := .addDependency a b) rfl
  | @entryPoint _ id => exact hd.change (m := .markEntryPoint id) rfl
  | @methods _ id _ ms => exact hd.change (m := .setMethods id ms) rfl
  | @link _ id _ name _ _ n t => exact hd.change (m := .addMethodParameter id name n t) rfl

/-- Whatever document is accepted, it is read by the graph's own operations, none of which takes
a node away. -/
theorem Graph.GrownFrom.of_ofJson {v : Json τ} {d : SpelledGraph ι τ ν η π}
    (hread : SpelledGraph.ofJson v = .ok d) : Graph.empty.GrownFrom d.graph := by
  have htold := SpelledGraph.read_of_ofJson Json.Hereditary.top trivial hread
  clear hread
  induction htold with
  | refl => exact .refl _
  | tail _ hstep ih => exact hstep.grown ih

/-- References to unknown nodes and repetitions in a document leave a well-formed graph. -/
theorem Graph.WellFormed.of_ofJson {v : Json τ} {d : SpelledGraph ι τ ν η π}
    (hread : SpelledGraph.ofJson v = .ok d) : d.graph.WellFormed := by
  obtain ⟨changes, -, hgraph⟩ := Graph.GrownFrom.of_ofJson hread
  rw [hgraph]
  exact .applyAll .of_empty changes

end Reading

namespace Graph

/-! ## Every graph that can be made -/

/-- A graph none of whose references leaves its nodes, as its readers see it. -/
structure Closed (g : Graph ι τ ν η π) : Prop where
  /-- Both ends of an edge are nodes, and no edge leads back to its own start, unless a comparison
  says that the start differs from itself. -/
  edges : ∀ a b, (a, b) ∈ g.edgeList → a ∈ g.identifiers ∧ b ∈ g.identifiers ∧
    (a = b → SelfEqual.selfEqual a = false)
  /-- The edges are what is listed as dependencies. -/
  listed : ∀ a b, (a, b) ∈ g.edgeList ↔ b ∈ g.dependencies a
  mirrored : ∀ a b, b ∈ g.dependencies a ↔ a ∈ g.dependents b
  dependencies_nodup : ∀ a, (g.dependencies a).Nodup
  dependents_nodup : ∀ a, (g.dependents a).Nodup
  counted : g.edgeCount = g.edgeList.length
  entryPoints : ∀ id ∈ g.entryPoints, id ∈ g.identifiers
  classIds : ∀ id ∈ g.classIds.keys, id ∈ g.identifiers
  info : ∀ id ∈ g.info.keys, id ∈ g.identifiers
  methods : ∀ id ∈ g.methods.keys, id ∈ g.identifiers
  linkOwners : ∀ id ∈ g.links.keys, id ∈ g.identifiers
  linkTargets : ∀ id name ls, (g.linksOf id).get? name = some ls →
    ∀ l ∈ ls, l.target ∈ g.identifiers

omit [DecidableEq τ] [DecidableEq ν] [DecidableEq π] [SelfEqual ι] in
/-- The keys of a dictionary of labels are nodes. -/
theorem mem_identifiers_of_keysWithin {β : Type} {g : Graph ι τ ν η π} {d : Dict ι β}
    (h : d.KeysWithin g.nodes) {id : ι} (hid : id ∈ d.keys) : id ∈ g.identifiers :=
  (Dict.contains_iff_mem_keys _ id).1 (h.contained id ((Dict.contains_iff_mem_keys _ id).2 hid))

omit [DecidableEq τ] [DecidableEq ν] [DecidableEq π] [SelfEqual ι] in
theorem mem_edgeList {g : Graph ι τ ν η π} {a b : ι} :
    (a, b) ∈ g.edgeList ↔ a ∈ g.identifiers ∧ b ∈ g.dependencies a := by
  simp only [edgeList, List.mem_flatMap, List.mem_map, Prod.mk.injEq]
  constructor
  · rintro ⟨c, hc, d, hd, rfl, rfl⟩
    exact ⟨hc, hd⟩
  · rintro ⟨ha, hb⟩
    exact ⟨a, ha, b, hb, rfl, rfl⟩

omit [DecidableEq ν] [DecidableEq π] in
/-- What the parts of a graph have to do with each other shows in all that can be read off it. -/
theorem WellFormed.closed {g : Graph ι τ ν η π} (hg : g.WellFormed) : g.Closed where
  edges a b hab := by
    obtain ⟨ha, hb⟩ := mem_edgeList.1 hab
    exact ⟨ha, (Dict.contains_iff_mem_keys _ b).1 (hg.edges.ends a b hb).2,
      hg.edges.apart a b hb⟩
  listed a b := by
    rw [mem_edgeList]
    refine ⟨And.right, fun hb => ⟨?_, hb⟩⟩
    exact (Dict.contains_iff_mem_keys _ a).1 (hg.edges.ends a b hb).1
  mirrored := hg.edges.mirrored
  dependencies_nodup := hg.edges.dependencies_nodup
  dependents_nodup := hg.edges.dependents_nodup
  counted := edgeCount_eq_length_edgeList hg.nodes_nodup hg.edges
  entryPoints id hid := (Dict.contains_iff_mem_keys _ id).1 (hg.labels.entryPoints id hid)
  classIds _ hid := mem_identifiers_of_keysWithin hg.labels.classIds hid
  info _ hid := mem_identifiers_of_keysWithin hg.labels.info hid
  methods _ hid := mem_identifiers_of_keysWithin hg.labels.methods hid
  linkOwners _ hid := mem_identifiers_of_keysWithin hg.links.owners hid
  linkTargets id name ls hls l hl :=
    (Dict.contains_iff_mem_keys _ l.target).1 ((hg.links.linksOf id).targets name ls hls l hl)

end Graph

end CodeAtlas
