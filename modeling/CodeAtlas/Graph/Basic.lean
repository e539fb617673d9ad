import CodeAtlas.Graph.Method

/-!
# Dependency graphs

One node per unit of code, dependencies between nodes, entry points, and what is known
about each node. Edges are kept in both directions, each in the order in which they were added,
and removing a node takes it off both. Every operation passes over references to unknown
nodes, so no edge, entry point or link leaves the node set.

The operations ask little of what they are given. A graph whose identifiers and texts are texts is
one of many: reading a document that somebody else wrote may fill a graph with all sorts of values.
So graphs have as parameters the types of their identifiers `ι`, of the names and numbers that
programs make up `τ`, of what is told about nodes `ν`, of line numbers `η` and of positions `π`.
-/

namespace CodeAtlas

/-- Values that can be compared with themselves. -/
class SelfEqual (α : Type) where
  /-- Whether a comparison says that the value is equal to itself. -/
  selfEqual : α → Bool

/-- Values of which some may be the keys of a dictionary. -/
class Keyable (α : Type) where
  /-- Whether the value may be a key. -/
  isKey : α → Bool

/-- A text is equal to itself. -/
instance : SelfEqual String := ⟨fun _ => true⟩

/-- A text may be a key. -/
instance : Keyable String := ⟨fun _ => true⟩

@[simp] theorem Keyable.isKey_eq (s : String) : isKey s = true := rfl

/-- The kind and description of a node. -/
structure NodeInfo (ν : Type := String) where
  kind : Kind
  description : Option ν
  deriving Repr, DecidableEq, Inhabited

/-- A parameter whose type is another node. The position counts only such parameters. -/
structure ParameterLink (ι : Type := String) (τ : Type := String) (π : Type := Int) where
  methodName : τ
  position : π
  target : ι
  deriving Repr, DecidableEq, Inhabited

/-- A dependency graph of a project. -/
structure Graph (ι : Type := String) (τ : Type := String) (ν : Type := String) (η : Type := Int)
    (π : Type := Int) where
  /-- The source file of each node. -/
  nodes : Dict ι ν
  /-- The dependencies of nodes, in the order in which they were added. -/
  outgoing : Dict ι (List ι)
  /-- The dependents of nodes, in the order in which they were added. -/
  incoming : Dict ι (List ι)
  /-- The entry points in the order in which they were marked. -/
  entryPoints : List ι
  /-- The record under which a node is stored. -/
  classIds : Dict ι τ
  /-- The kind and description of nodes that have been classified. -/
  info : Dict ι (NodeInfo ν)
  /-- The methods of nodes that have been examined. -/
  methods : Dict ι (List (Method ν η))
  /-- The parameter links of nodes, by method name. -/
  links : Dict ι (Dict τ (List (ParameterLink ι τ π)))

/-- Counts that describe a graph's size. -/
structure GraphStats where
  nodes : Nat
  edges : Nat
  entryPoints : Nat
  methods : Nat
  deriving Repr, DecidableEq

namespace Graph

variable {ι τ ν η π : Type}

/-- The graph without nodes. -/
def empty : Graph ι τ ν η π := ⟨.empty, .empty, .empty, [], .empty, .empty, .empty, .empty⟩

instance : Inhabited (Graph ι τ ν η π) := ⟨empty⟩

/-! ## Answers -/

/-- The nodes in insertion order. -/
def identifiers (g : Graph ι τ ν η π) : List ι := g.nodes.keys

/-- The number of edges. -/
def edgeCount (g : Graph ι τ ν η π) : Nat := g.outgoing.values.flatten.length

/-- Whether anything is known about any node. -/
def hasMetadata (g : Graph ι τ ν η π) : Bool := !g.info.isEmpty || !g.methods.isEmpty

/-- The size of the graph. -/
def stats (g : Graph ι τ ν η π) : GraphStats :=
  ⟨g.nodes.size, g.edgeCount, g.entryPoints.length, g.methods.values.flatten.length⟩

section Answers

variable [DecidableEq ι] (g : Graph ι τ ν η π) (id : ι)

/-- Whether the graph has the node. -/
def contains : Bool := g.nodes.contains id

/-- The source file of a node. -/
def sourceFile? : Option ν := g.nodes.get? id

/-- The nodes that a node depends on. -/
def dependencies : List ι := g.outgoing.getD id []

/-- The nodes that depend on a node. -/
def dependents : List ι := g.incoming.getD id []

/-- The dependencies and dependents of a node, each once. -/
def neighbours : List ι := firstOccurrences (g.dependencies id ++ g.dependents id)

/-- The edges, node by node in insertion order. -/
def edgeList : List (ι × ι) :=
  g.identifiers.flatMap fun a => (g.dependencies a).map fun b => (a, b)

/-- Whether a node is an entry point. -/
def isEntryPoint : Bool := g.entryPoints.contains id

/-- The record under which a node is stored. -/
def classId? : Option τ := g.classIds.get? id

/-- What is known about a node. -/
def nodeInfo? : Option (NodeInfo ν) := g.info.get? id

/-- The kind of a node, `other` if it was not classified. -/
def kind : Kind :=
  match g.nodeInfo? id with
  | some i => i.kind
  | none => .other

/-- The description of a node. -/
def description? : Option ν := (g.nodeInfo? id).bind (·.description)

/-- The methods of a node. -/
def methodsOf : List (Method ν η) := g.methods.getD id []

/-- The parameter links of a node by method name. -/
def linksOf : Dict τ (List (ParameterLink ι τ π)) := g.links.getD id .empty

/-- Every method that answers HTTP requests, with its node. -/
def endpoints : List (ι × Method ν η) :=
  g.identifiers.flatMap fun id => ((g.methodsOf id).filter (·.isEndpoint)).map fun m => (id, m)

end Answers

/-! ## Operations -/

section Operations

variable [DecidableEq ι]

/-- Adds a node; a known node keeps its source file. -/
def addNode (g : Graph ι τ ν η π) (id : ι) (sourceFile : ν) : Graph ι τ ν η π :=
  if g.contains id then g else { g with nodes := g.nodes.insert id sourceFile }

/-- Adds an edge between two known nodes that a comparison does not find equal. -/
def addDependency [SelfEqual ι] (g : Graph ι τ ν η π) (source target : ι) : Graph ι τ ν η π :=
  if (source = target && SelfEqual.selfEqual source) || !g.contains source ||
      !g.contains target then g
  else
    { g with
      outgoing := g.outgoing.insert source (appendNew (g.dependencies source) target)
      incoming := g.incoming.insert target (appendNew (g.dependents target) source) }

/-- Takes a node off the lists of several others. -/
def unlist (id : ι) (others : List ι) (d : Dict ι (List ι)) : Dict ι (List ι) :=
  others.foldl (fun d other => d.insert other ((d.getD other []).erase id)) d

/-- The links by method name without those that point at a node. -/
def dropLinksTo (id : ι) (byMethod : Dict τ (List (ParameterLink ι τ π))) :
    Dict τ (List (ParameterLink ι τ π)) :=
  byMethod.mapValues fun _ links => links.filter fun l => l.target ≠ id

/-- Removes a node with its edges, all that is known about it and the links that point at it. -/
def removeNode (g : Graph ι τ ν η π) (id : ι) : Graph ι τ ν η π :=
  if g.contains id then
    let incoming := unlist id (g.dependencies id) g.incoming
    { nodes := g.nodes.erase id
      outgoing := unlist id (incoming.getD id []) (g.outgoing.erase id)
      incoming := incoming.erase id
      entryPoints := g.entryPoints.filter (· ≠ id)
      classIds := g.classIds.erase id
      info := g.info.erase id
      methods := g.methods.erase id
      links := (g.links.erase id).mapValues fun _ byMethod => dropLinksTo id byMethod }
  else g

/-- Marks a known node as an entry point. -/
def markEntryPoint (g : Graph ι τ ν η π) (id : ι) : Graph ι τ ν η π :=
  if g.contains id then { g with entryPoints := appendNew g.entryPoints id } else g

/-- Ties a known node to the record under which it is stored. -/
def bindClassId (g : Graph ι τ ν η π) (id : ι) (recordId : τ) : Graph ι τ ν η π :=
  if g.contains id then { g with classIds := g.classIds.insert id recordId } else g

/-- Sets what is known about a known node. -/
def setNodeInfo (g : Graph ι τ ν η π) (id : ι) (i : NodeInfo ν) : Graph ι τ ν η π :=
  if g.contains id then { g with info := g.info.insert id i } else g

/-- Adds a method at the end of a known node's methods. -/
def addMethod (g : Graph ι τ ν η π) (id : ι) (m : Method ν η) : Graph ι τ ν η π :=
  if g.contains id then { g with methods := g.methods.insert id (g.methodsOf id ++ [m]) } else g

/-- Replaces the methods of a known node. -/
def setMethods (g : Graph ι τ ν η π) (id : ι) (ms : List (Method ν η)) : Graph ι τ ν η π :=
  if g.contains id then { g with methods := g.methods.insert id ms } else g

/-- Records that a parameter of a known node's method is another known node. -/
def addMethodParameter [DecidableEq τ] [DecidableEq π] (g : Graph ι τ ν η π) (id : ι)
    (methodName : τ) (position : π) (target : ι) : Graph ι τ ν η π :=
  if !g.contains id || !g.contains target then g
  else
    let byMethod := g.linksOf id
    let links := appendNew (byMethod.getD methodName []) ⟨methodName, position, target⟩
    { g with links := g.links.insert id (byMethod.insert methodName links) }

/-- Forgets the parameter links of a node. -/
def clearMethodParameters (g : Graph ι τ ν η π) (id : ι) : Graph ι τ ν η π :=
  { g with links := g.links.erase id }

/-- The methods with the texts that name them; a text for no method is passed over. -/
def enrichMethods [DecidableEq ν] (ms : List (Method ν η)) (texts : Dict ν (MethodText ν)) :
    List (Method ν η) :=
  ms.map fun m =>
    match texts.get? m.name with
    | some t => m.withText t
    | none => m

/-- Gives a node its enriched description and methods; without a kind it keeps its own. The
answer tells whether the node exists. The names of the methods are looked up, so if one of them
cannot be a key, the operation ends before a method is changed. -/
def applyEnrichment [DecidableEq ν] [Keyable ν] (g : Graph ι τ ν η π) (id : ι)
    (kind : Option Kind) (description : Option ν) (texts : Dict ν (MethodText ν)) :
    Graph ι τ ν η π × Bool :=
  if g.contains id then
    let g := { g with info := g.info.insert id ⟨kind.getD (g.kind id), description⟩ }
    match g.methods.get? id with
    | some ms =>
      if ms.all fun m => Keyable.isKey m.name then
        ({ g with methods := g.methods.insert id (enrichMethods ms texts) }, true)
      else (g, true)
    | none => (g, true)
  else (g, false)

end Operations

end Graph

end CodeAtlas

/-!
## Analysis order

The order in which the nodes of a graph are examined: entry points first, then what they
reach along dependencies, breadth first, and at last the nodes that no entry point reaches.
-/

namespace CodeAtlas.Graph

variable {ι τ ν η π : Type} [DecidableEq ι]

/-- Visits the pending nodes breadth first. `seen` lists all nodes met so far, the pending
ones at its end; the count bounds the number of visits. -/
def visitPending (g : Graph ι τ ν η π) : Nat → List ι → List ι → List ι
  | 0, seen, _ => seen
  | _ + 1, seen, [] => seen
  | bound + 1, seen, current :: pending =>
    let fresh := (g.dependencies current).filter fun t => !seen.contains t
    visitPending g bound (seen ++ fresh) (pending ++ fresh)

/-- The nodes that entry points reach, breadth first. Each visited node is an entry point or
the target of an edge, so the bound is never met. -/
def reachedOrder (g : Graph ι τ ν η π) : List ι :=
  visitPending g (g.entryPoints.length + g.edgeCount + 1) g.entryPoints g.entryPoints

/-- All nodes: those that entry points reach, breadth first, then the others as inserted. -/
def analysisOrder (g : Graph ι τ ν η π) : List ι :=
  let reached := g.reachedOrder
  reached ++ g.identifiers.filter fun id => !reached.contains id

end CodeAtlas.Graph
