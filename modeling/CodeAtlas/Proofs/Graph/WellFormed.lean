import CodeAtlas.Proofs.Graph.Edges
import CodeAtlas.Proofs.Graph.Labels

/-!
# Well-formed graphs

A graph keeps its edges twice and what it knows about nodes in several dictionaries. This file
proves that every operation keeps all of them together, and with them every sequence of
operations.
-/

namespace CodeAtlas

variable {ι τ ν η π : Type} [DecidableEq ι] [DecidableEq τ] [SelfEqual ι]

namespace Graph

/-- A graph whose nodes, edges, labels and links fit together. -/
structure WellFormed (g : Graph ι τ ν η π) : Prop where
  nodes_nodup : g.nodes.keys.Nodup
  edges : g.EdgesCoupled
  labels : g.LabelsWithin
  links : g.LinksWithin

/-! ## Operations -/

/-- The empty graph is well-formed. -/
theorem WellFormed.of_empty : (Graph.empty : Graph ι τ ν η π).WellFormed where
  nodes_nodup := List.nodup_nil
  edges := by
    constructor <;> simp [dependencies, dependents, Graph.empty]
  labels := ⟨List.nodup_nil, fun _ h => absurd h List.not_mem_nil, .of_empty, .of_empty, .of_empty⟩
  links := ⟨.of_empty, fun _ _ h => by cases h⟩

theorem WellFormed.addNode {g : Graph ι τ ν η π} (hg : g.WellFormed) (id : ι) (file : ν) :
    (g.addNode id file).WellFormed where
  nodes_nodup := by
    unfold Graph.addNode
    split
    · exact hg.nodes_nodup
    · exact Dict.nodup_keys_insert hg.nodes_nodup id file
  edges := by
    unfold Graph.addNode
    split
    · exact hg.edges
    · obtain ⟨h1, h2, h3, h4, h5, h6⟩ := hg.edges
      refine ⟨h1, fun a b hb => ?_, h3, h4, h5, h6⟩
      obtain ⟨ha, hb⟩ := h2 a b hb
      exact ⟨(Dict.contains_insert g.nodes id a file).2 (Or.inr ha),
        (Dict.contains_insert g.nodes id b file).2 (Or.inr hb)⟩
  labels := hg.labels.addNode id file
  links := hg.links.addNode id file

theorem WellFormed.addDependency {g : Graph ι τ ν η π} (hg : g.WellFormed) (a b : ι) :
    (g.addDependency a b).WellFormed where
  nodes_nodup := by
    rw [nodes_addDependency]
    exact hg.nodes_nodup
  edges := hg.edges.addDependency a b
  labels := hg.labels.congr (nodes_addDependency ..) (entryPoints_addDependency ..)
    (classIds_addDependency ..) (info_addDependency ..) (methods_addDependency ..)
  links := hg.links.congr (nodes_addDependency ..) (links_addDependency ..)

theorem WellFormed.removeNode {g : Graph ι τ ν η π} (hg : g.WellFormed) (id : ι) :
    (g.removeNode id).WellFormed where
  nodes_nodup := by
    unfold Graph.removeNode
    split
    · exact Dict.nodup_keys_erase hg.nodes_nodup id
    · exact hg.nodes_nodup
  edges := hg.edges.removeNode id
  labels := hg.labels.removeNode id
  links := hg.links.removeNode id

/-- Labels may change as long as they stay within the nodes. -/
theorem WellFormed.relabel {g h : Graph ι τ ν η π} (hg : g.WellFormed) (hnodes : h.nodes = g.nodes)
    (houtgoing : h.outgoing = g.outgoing) (hincoming : h.incoming = g.incoming)
    (hlinks : h.links = g.links) (hlabels : h.LabelsWithin) : h.WellFormed :=
  ⟨hnodes ▸ hg.nodes_nodup, hg.edges.congr hnodes houtgoing hincoming, hlabels,
    hg.links.congr hnodes hlinks⟩

/-- Links may change as long as they stay within the nodes. -/
theorem WellFormed.relink {g h : Graph ι τ ν η π} (hg : g.WellFormed) (hlinks : h.LinksWithin)
    (hrest : h = { g with links := h.links }) : h.WellFormed := by
  refine ⟨?_, ?_, ?_, hlinks⟩
  · rw [hrest]
    exact hg.nodes_nodup
  · rw [hrest]
    exact hg.edges.congr rfl rfl rfl
  · rw [hrest]
    exact hg.labels.congr rfl rfl rfl rfl rfl

theorem WellFormed.markEntryPoint {g : Graph ι τ ν η π} (hg : g.WellFormed) (id : ι) :
    (g.markEntryPoint id).WellFormed :=
  hg.relabel (nodes_markEntryPoint ..) (outgoing_markEntryPoint ..) (incoming_markEntryPoint ..)
    (links_markEntryPoint ..) (hg.labels.markEntryPoint id)

theorem WellFormed.bindClassId {g : Graph ι τ ν η π} (hg : g.WellFormed) (id : ι) (recordId : τ) :
    (g.bindClassId id recordId).WellFormed := by
  unfold Graph.bindClassId
  split
  · next hid =>
    exact hg.relabel rfl rfl rfl rfl ⟨hg.labels.entryPoints_nodup, hg.labels.entryPoints,
      hg.labels.classIds.insert hid recordId, hg.labels.info, hg.labels.methods⟩
  · exact hg

theorem WellFormed.setNodeInfo {g : Graph ι τ ν η π} (hg : g.WellFormed) (id : ι) (i : NodeInfo ν) :
    (g.setNodeInfo id i).WellFormed := by
  unfold Graph.setNodeInfo
  split
  · next hid =>
    exact hg.relabel rfl rfl rfl rfl ⟨hg.labels.entryPoints_nodup, hg.labels.entryPoints,
      hg.labels.classIds, hg.labels.info.insert hid i, hg.labels.methods⟩
  · exact hg

theorem WellFormed.setMethods {g : Graph ι τ ν η π} (hg : g.WellFormed) (id : ι)
    (ms : List (Method ν η)) :
    (g.setMethods id ms).WellFormed := by
  unfold Graph.setMethods
  split
  · next hid =>
    exact hg.relabel rfl rfl rfl rfl ⟨hg.labels.entryPoints_nodup, hg.labels.entryPoints,
      hg.labels.classIds, hg.labels.info, hg.labels.methods.insert hid ms⟩
  · exact hg

theorem WellFormed.addMethod {g : Graph ι τ ν η π} (hg : g.WellFormed) (id : ι) (m : Method ν η) :
    (g.addMethod id m).WellFormed :=
  hg.setMethods id (g.methodsOf id ++ [m])

theorem WellFormed.addMethodParameter [DecidableEq π] {g : Graph ι τ ν η π} (hg : g.WellFormed)
    (id : ι) (name : τ) (position : π) (target : ι) :
    (g.addMethodParameter id name position target).WellFormed := by
  refine hg.relink (hg.links.addMethodParameter id name position target) ?_
  unfold Graph.addMethodParameter
  split <;> rfl

theorem WellFormed.clearMethodParameters {g : Graph ι τ ν η π} (hg : g.WellFormed) (id : ι) :
    (g.clearMethodParameters id).WellFormed :=
  hg.relink (hg.links.clearMethodParameters id) rfl

section Enrichment

variable [DecidableEq ν] [Keyable ν]

omit [DecidableEq τ] [SelfEqual ι] in
/-- An answer changes what is known about its node and nothing else. Methods are changed if all
their names can be looked up. -/
theorem applyEnrichment_eq_ite (g : Graph ι τ ν η π) (id : ι) (kind : Option Kind)
    (description : Option ν) (texts : Dict ν (MethodText ν)) :
    (g.applyEnrichment id kind description texts).1 =
      if (g.methods.get? id).any fun ms => ms.all fun m => Keyable.isKey m.name then
        (g.setNodeInfo id ⟨kind.getD (g.kind id), description⟩).setMethods id
          (enrichMethods (g.methodsOf id) texts)
      else g.setNodeInfo id ⟨kind.getD (g.kind id), description⟩ := by
  unfold applyEnrichment setNodeInfo setMethods methodsOf
  by_cases hid : g.contains id = true
  · have hinfo (info : Dict ι (NodeInfo ν)) :
        ({ g with info := info } : Graph ι τ ν η π).contains id = true := hid
    rw [if_pos hid, if_pos hid, if_pos (hinfo _)]
    cases hm : g.methods.get? id with
    | none => simp [hm]
    | some ms =>
      rw [Dict.getD_of_get?_eq_some _ hm]
      by_cases hkeys : (ms.all fun m => Keyable.isKey m.name) = true <;> simp [hm, hkeys]
  · simp [hid]

theorem WellFormed.applyEnrichment {g : Graph ι τ ν η π} (hg : g.WellFormed) (id : ι)
    (kind : Option Kind) (description : Option ν) (texts : Dict ν (MethodText ν)) :
    (g.applyEnrichment id kind description texts).1.WellFormed := by
  rw [applyEnrichment_eq_ite]
  split
  · exact (hg.setNodeInfo id _).setMethods id _
  · exact hg.setNodeInfo id _

end Enrichment

/-- Names that are texts can all be looked up. -/
theorem applyEnrichment_eq (g : Graph) (id : String) (kind : Option Kind)
    (description : Option String) (texts : Dict String MethodText) :
    (g.applyEnrichment id kind description texts).1 =
      if (g.methods.get? id).isSome then
        (g.setNodeInfo id ⟨kind.getD (g.kind id), description⟩).setMethods id
          (enrichMethods (g.methodsOf id) texts)
      else g.setNodeInfo id ⟨kind.getD (g.kind id), description⟩ := by
  rw [applyEnrichment_eq_ite]
  cases g.methods.get? id <;> simp

end Graph

/-- One change to a graph by one of its operations. -/
inductive Mutation (ι : Type := String) (τ : Type := String) (ν : Type := String) (η : Type := Int)
    (π : Type := Int) where
  | addNode (id : ι) (sourceFile : ν)
  | addDependency (source target : ι)
  | removeNode (id : ι)
  | markEntryPoint (id : ι)
  | bindClassId (id : ι) (recordId : τ)
  | setNodeInfo (id : ι) (info : NodeInfo ν)
  | addMethod (id : ι) (method : Method ν η)
  | setMethods (id : ι) (methods : List (Method ν η))
  | addMethodParameter (id : ι) (methodName : τ) (position : π) (target : ι)
  | clearMethodParameters (id : ι)
  | applyEnrichment (id : ι) (kind : Option Kind) (description : Option ν)
      (texts : Dict ν (MethodText ν))

variable [DecidableEq ν] [Keyable ν] [DecidableEq π]

/-- The graph after a change. -/
def Mutation.apply (g : Graph ι τ ν η π) : Mutation ι τ ν η π → Graph ι τ ν η π
  | .addNode id file => g.addNode id file
  | .addDependency a b => g.addDependency a b
  | .removeNode id => g.removeNode id
  | .markEntryPoint id => g.markEntryPoint id
  | .bindClassId id recordId => g.bindClassId id recordId
  | .setNodeInfo id i => g.setNodeInfo id i
  | .addMethod id m => g.addMethod id m
  | .setMethods id ms => g.setMethods id ms
  | .addMethodParameter id name position target => g.addMethodParameter id name position target
  | .clearMethodParameters id => g.clearMethodParameters id
  | .applyEnrichment id kind description texts =>
    (g.applyEnrichment id kind description texts).1

/-- The graph after several changes. -/
def Mutation.applyAll (ms : List (Mutation ι τ ν η π)) (g : Graph ι τ ν η π) : Graph ι τ ν η π :=
  ms.foldl Mutation.apply g

namespace Graph

/-- Every single change keeps a graph well-formed. -/
theorem WellFormed.apply {g : Graph ι τ ν η π} (hg : g.WellFormed) (m : Mutation ι τ ν η π) :
    (m.apply g).WellFormed := by
  cases m with
  | addNode id file => exact hg.addNode id file
  | addDependency a b => exact hg.addDependency a b
  | removeNode id => exact hg.removeNode id
  | markEntryPoint id => exact hg.markEntryPoint id
  | bindClassId id recordId => exact hg.bindClassId id recordId
  | setNodeInfo id i => exact hg.setNodeInfo id i
  | addMethod id m => exact hg.addMethod id m
  | setMethods id ms => exact hg.setMethods id ms
  | addMethodParameter id name position target =>
    exact hg.addMethodParameter id name position target
  | clearMethodParameters id => exact hg.clearMethodParameters id
  | applyEnrichment id kind description texts => exact hg.applyEnrichment id kind description texts

theorem WellFormed.applyAll {g : Graph ι τ ν η π} (hg : g.WellFormed)
    (ms : List (Mutation ι τ ν η π)) :
    (Mutation.applyAll ms g).WellFormed := by
  unfold Mutation.applyAll
  induction ms generalizing g with
  | nil => exact hg
  | cons m rest ih => exact ih (hg.apply m)

end Graph

/-! ## Growth -/

/-- Whether a change takes a node away. -/
def Mutation.removes : Mutation ι τ ν η π → Bool
  | .removeNode _ => true
  | _ => false

namespace Graph

/-- A graph that changes make of another one without taking a node away. -/
def GrownFrom (g h : Graph ι τ ν η π) : Prop :=
  ∃ changes : List (Mutation ι τ ν η π),
    (∀ m ∈ changes, m.removes = false) ∧ h = Mutation.applyAll changes g

theorem GrownFrom.refl (g : Graph ι τ ν η π) : GrownFrom g g := ⟨[], by simp, rfl⟩

/-- One more change keeps a graph grown from the same one. -/
theorem GrownFrom.change {start g : Graph ι τ ν η π} (hg : GrownFrom start g)
    {m : Mutation ι τ ν η π}
    (hm : m.removes = false) : GrownFrom start (m.apply g) := by
  obtain ⟨changes, hchanges, rfl⟩ := hg
  refine ⟨changes ++ [m], fun x hx => ?_, by simp [Mutation.applyAll]⟩
  rcases List.mem_append.1 hx with hx | hx
  · exact hchanges x hx
  · rw [List.mem_singleton.1 hx]
    exact hm

/-- What holds of a graph and is kept by every change but the removal of a node holds of all
graphs grown from it. -/
theorem GrownFrom.keeps {start g : Graph ι τ ν η π} {P : Graph ι τ ν η π → Prop}
    (hgrown : GrownFrom start g) (hstart : P start)
    (hstep : ∀ (h : Graph ι τ ν η π) (m : Mutation ι τ ν η π),
      m.removes = false → P h → P (m.apply h)) : P g := by
  obtain ⟨changes, hchanges, rfl⟩ := hgrown
  unfold Mutation.applyAll
  induction changes generalizing start with
  | nil => exact hstart
  | cons m rest ih =>
    exact ih (hstep start m (hchanges m (List.mem_cons_self ..)) hstart)
      fun x hx => hchanges x (List.mem_cons_of_mem _ hx)

end Graph

end CodeAtlas
