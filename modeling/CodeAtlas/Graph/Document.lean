import CodeAtlas.Graph.Basic
import CodeAtlas.Json.Basic
import CodeAtlas.Json.Limits
import CodeAtlas.Json.Printer

/-!
# Graph documents

The JSON form of a graph and how it is read back. Reading fills an empty graph by the
graph's own operations, so a document may repeat nodes or name unknown ones: the first
mention of a node counts and references to unknown nodes are passed over.

Equal values may be spelled in several ways, and a document need not keep to one of them. What
counts is how an identifier or a position was spelled where it was mentioned first, in each of the
places in which a graph keeps it. So a graph is read together with its spellings.
-/

namespace CodeAtlas

/-- Where a graph keeps an identifier or a position. -/
inductive Place (ι τ π : Type) where
  | node (id : ι)
  | edge (source target : ι)
  | entryPoint (id : ι)
  | linkPosition (owner : ι) (link : ParameterLink ι τ π)
  | linkTarget (owner : ι) (link : ParameterLink ι τ π)
  deriving DecidableEq

/-- A graph with the spellings of what is kept in its places, the first mention first. -/
structure SpelledGraph (ι : Type := String) (τ : Type := String) (ν : Type := String)
    (η : Type := Int) (π : Type := Int) where
  graph : Graph ι τ ν η π
  spellings : List (Place ι τ π × Json τ)
  deriving Inhabited

namespace Kind

variable {τ : Type} [Wording τ]

/-- The kind that a text names. -/
def ofWording (t : τ) : Kind := ofText? (Wording.toString? t)

/-- The kind that a field of a record names; an empty value names no kind. -/
def ofField : Option (Json τ) → Outcome Kind
  | none => .ok .other
  | some (.string s) => .ok (ofWording s)
  | some v => if v.isTruthy then .error (.notARecord v.sortName "strip") else .ok .other

end Kind

namespace SpelledGraph

variable {ι τ ν η π : Type} [DecidableEq ι] [DecidableEq τ] [DecidableEq π]
  [Wording τ] [Coded ι τ] [Coded ν τ] [Coded η τ] [Coded π τ]

/-! ## Written graphs -/

section Writing

/-- How a place is spelled that no document spells. -/
def ownSpelling : Place ι τ π → Json τ
  | .node id | .edge _ id | .entryPoint id => Coded.toJson id
  | .linkPosition _ l => Coded.toJson l.position
  | .linkTarget _ l => Coded.toJson l.target

variable (d : SpelledGraph ι τ ν η π)

/-- How a place is spelled. -/
def spelling (p : Place ι τ π) : Json τ := (Dict.lookup p d.spellings).getD (ownSpelling p)

/-- The name of a field that a value stands for. -/
def fieldName : Json τ → τ
  | .string t => t
  | v => Wording.ofString v.compact

/-- A written node. -/
def nodeJson (id : ι) (sourceFile : ν) : Json τ :=
  .object <|
    [(Wording.ofString "id", d.spelling (.node id)),
      (Wording.ofString "sourceFile", Coded.toJson sourceFile)] ++
    Method.optionalField "classId" ((d.graph.classId? id).map .string) ++
    (match d.graph.nodeInfo? id with
      | some i =>
        (Wording.ofString "kind", .string (Wording.ofString i.kind.name)) ::
          Method.optionalField "description" (i.description.map Coded.toJson)
      | none => []) ++
    [(Wording.ofString "entryPoint", .bool (d.graph.isEntryPoint id))]

/-- A written edge. -/
def edgeJson (e : ι × ι) : Json τ :=
  .object [(Wording.ofString "from", d.spelling (.node e.1)),
    (Wording.ofString "to", d.spelling (.edge e.1 e.2))]

/-- A written parameter link. -/
def linkJson (owner : ι) (l : ParameterLink ι τ π) : Json τ :=
  .object [(Wording.ofString "position", d.spelling (.linkPosition owner l)),
    (Wording.ofString "target", d.spelling (.linkTarget owner l))]

/-- The written links of a node. -/
def linksJson (owner : ι) (byMethod : Dict τ (List (ParameterLink ι τ π))) : Json τ :=
  .object (byMethod.toList.map fun (name, links) => (name, .array (links.map (d.linkJson owner))))

/-- The written graph. -/
def toJson : Json τ :=
  .object [
    (Wording.ofString "nodes",
      .array (d.graph.nodes.toList.map fun (id, file) => d.nodeJson id file)),
    (Wording.ofString "edges", .array (d.graph.edgeList.map d.edgeJson)),
    (Wording.ofString "entryPoints",
      .array (d.graph.entryPoints.map fun id => d.spelling (.entryPoint id))),
    (Wording.ofString "methods", .object (d.graph.methods.toList.map fun (id, ms) =>
      (fieldName (Coded.toJson id), .array (ms.map Method.toJson)))),
    (Wording.ofString "methodParameters", .object (d.graph.links.toList.map fun (id, byMethod) =>
      (fieldName (Coded.toJson id), d.linksJson id byMethod)))]

/-- The text of the written graph. -/
def toText : String := d.toJson.pretty

end Writing

/-! ## Read graphs -/

/-- Ties a node to the record that its own record names, if it names one. -/
def readClassId (g : Graph ι τ ν η π) (id : ι) : Option (Json τ) → Graph ι τ ν η π
  | none | some .null => g
  | some c => g.bindClassId id c.shown

/-- Sets what a node's record says about its kind and description, if it says anything. -/
def readInfo (g : Graph ι τ ν η π) (id : ι) (kind description : Option (Json τ)) :
    Outcome (Graph ι τ ν η π) :=
  match kind, description with
  | none, none => .ok g
  | kind, description => do
    let kind ← Kind.ofField kind
    let description ← Coded.ofOptional description
    return g.setNodeInfo id ⟨kind, description⟩

/-- Whether a node's record flags it as an entry point. -/
def isFlagged (v : Json τ) : Bool := ((v.field? "entryPoint").map Json.isTruthy).getD false

/-- A graph while its nodes are read, with the spellings of those flagged as entry points. -/
structure NodesRead (ι τ ν η π : Type) where
  read : SpelledGraph ι τ ν η π
  flagged : List (Json τ)

/-- Reads one node's record. -/
def readNode (r : NodesRead ι τ ν η π) (v : Json τ) : Outcome (NodesRead ι τ ν η π) := do
  let mention ← v.required "id"
  let id ← Coded.ofJson mention
  let file ← Coded.ofJson ((v.field? "sourceFile").getD (.string (Wording.ofString "")))
  let g := readClassId (r.read.graph.addNode id file) id (v.field? "classId")
  let g ← readInfo g id (v.field? "kind") (v.field? "description")
  return ⟨⟨g, r.read.spellings ++ [(.node id, mention)]⟩,
    if isFlagged v then r.flagged ++ [mention] else r.flagged⟩

/-- Reads one edge's record. Two ends that are found equal are not looked up. -/
def readEdge [SelfEqual ι] (d : SpelledGraph ι τ ν η π) (v : Json τ) :
    Outcome (SpelledGraph ι τ ν η π) := do
  let source ← v.required "from"
  let target ← v.required "to"
  if source.alike target then return d
  let a ← Coded.ofJson source
  if !d.graph.contains a then return d
  let b ← Coded.ofJson target
  return ⟨d.graph.addDependency a b, d.spellings ++ [(.edge a b, target)]⟩

/-- Reads one mention of an entry point. -/
def readEntryPoint (d : SpelledGraph ι τ ν η π) (v : Json τ) :
    Outcome (SpelledGraph ι τ ν η π) := do
  let id ← Coded.ofJson v
  return ⟨d.graph.markEntryPoint id, d.spellings ++ [(.entryPoint id, v)]⟩

/-- Reads the methods of one node. -/
def readMethods (d : SpelledGraph ι τ ν η π) (f : τ × Json τ) :
    Outcome (SpelledGraph ι τ ν η π) := do
  let methods ← (← f.2.elements).mapM Method.ofJson
  let id ← Coded.ofJson (.string f.1)
  return ⟨d.graph.setMethods id methods, d.spellings⟩

/-- Reads one parameter link. -/
def readLink (id : ι) (methodName : τ) (d : SpelledGraph ι τ ν η π) (v : Json τ) :
    Outcome (SpelledGraph ι τ ν η π) := do
  let position ← v.required "position"
  let target ← v.required "target"
  if !d.graph.contains id then return d
  let t ← Coded.ofJson target
  let n ← Coded.ofJson position
  let link : ParameterLink ι τ π := ⟨methodName, n, t⟩
  return ⟨d.graph.addMethodParameter id methodName n t,
    d.spellings ++ [(.linkPosition id link, position), (.linkTarget id link, target)]⟩

/-- Reads the parameter links of one node. -/
def readLinks (d : SpelledGraph ι τ ν η π) (f : τ × Json τ) :
    Outcome (SpelledGraph ι τ ν η π) := do
  let byMethod ← f.2.asFields
  let id ← Coded.ofJson (.string f.1)
  byMethod.foldlM (fun d m => do (← m.2.elements).foldlM (readLink id m.1) d) d

/-- The items of a field; a missing one has items of its own. -/
def itemsOf (missing : List (Json τ)) : Option (Json τ) → Outcome (List (Json τ))
  | some v => v.elements
  | none => .ok missing

/-- The fields of a field, none of a missing one. -/
def fieldsOf : Option (Json τ) → Outcome (List (τ × Json τ))
  | some v => v.asFields
  | none => .ok []

/-- The graph that a document describes. -/
def ofJson [SelfEqual ι] (v : Json τ) : Outcome (SpelledGraph ι τ ν η π) := do
  let nodes ← itemsOf [] (← v.optional "nodes")
  let r ← nodes.foldlM readNode ⟨⟨.empty, []⟩, []⟩
  let edges ← itemsOf [] (v.field? "edges")
  let d ← edges.foldlM readEdge r.read
  let marks ← itemsOf r.flagged (v.field? "entryPoints")
  let d ← marks.foldlM readEntryPoint d
  let methods ← fieldsOf (v.field? "methods")
  let d ← methods.foldlM readMethods d
  let links ← fieldsOf (v.field? "methodParameters")
  links.foldlM readLinks d

/-- The graph that a text describes. -/
def ofText [SelfEqual ι] (s : String) : Outcome (SpelledGraph ι τ ν η π) := do
  ofJson (← Json.readAs τ s)

/-- The graph that a text describes, unless a limit is met on the way. -/
def ofTextWithin [SelfEqual ι] (l : Json.Limits) (s : String) :
    Outcome (SpelledGraph ι τ ν η π) := do
  ofJson (← Json.readWithin τ l s)

end SpelledGraph

/-!
## Graphs of texts

Identifiers that are texts have one spelling each.
-/

namespace Graph

/-- The written graph. -/
def toJson (g : Graph) : Json := SpelledGraph.toJson ⟨g, []⟩

/-- The text of the written graph. -/
def toText (g : Graph) : String := g.toJson.pretty

/-- The graph that a document describes. -/
def ofJson (v : Json) : Outcome Graph := (SpelledGraph.ofJson v).map (·.graph)

/-- The graph that a text describes. -/
def ofText (s : String) : Outcome Graph := do ofJson (← Json.read s)

end Graph

/-- The written sizes of a graph. -/
def GraphStats.toJson (s : GraphStats) : Json :=
  .object [("nodes", .ofNat s.nodes), ("edges", .ofNat s.edges),
    ("entry_points", .ofNat s.entryPoints), ("methods", .ofNat s.methods)]

/-!
## Documents of any origin

A document that somebody else wrote may have any values where a program would write texts and
numbers. Reading refuses few of them: what has no parts serves as an identifier, positions are only
compared, and every other value is kept as it is.
-/

/-- Any value of a document, with its texts by their units. -/
abbrev Value := Json UnitText

/-- A value without parts as an identifier. Values that count as equal are the same one. -/
inductive Key where
  | null
  | whole (n : Int)
  /-- A number that is not whole, or no number at all. -/
  | decimal (x : Double)
  | text (t : UnitText)
  deriving Repr, DecidableEq, Inhabited

namespace Key

/-- The value that spells an identifier. -/
def toJson : Key → Value
  | .null => .null
  | .whole n => .int n
  | .decimal x => .decimal x
  | .text t => .string t

/-- The identifier that a value spells; a value with parts cannot be looked up. -/
def ofJson : Value → Outcome Key
  | .null => .ok .null
  | .bool b => .ok (.whole (if b then 1 else 0))
  | .int n => .ok (.whole n)
  | .decimal x => .ok (x.whole?.elim (.decimal x) .whole)
  | .string t => .ok (.text t)
  | .array _ | .object _ => .error .wrongType

end Key

instance : Coded Key UnitText := ⟨Key.toJson, Key.ofJson⟩

/-- What is no number is not equal to itself. -/
instance : SelfEqual Key := ⟨fun k => k ≠ .decimal .notANumber⟩

/-- A value as far as comparisons go. -/
structure Likeness where
  value : Value
  deriving Repr, DecidableEq, Inhabited

instance : Coded Likeness UnitText := ⟨Likeness.value, fun v => .ok ⟨v.likeness⟩⟩

instance : Coded Value UnitText := ⟨fun v => v, .ok⟩

/-- Values with parts cannot be keys. -/
instance : Keyable Value :=
  ⟨fun
    | .array _ | .object _ => false
    | _ => true⟩

/-- A graph that was read from any document. -/
abbrev ForeignGraph := Graph Key UnitText Value Value Likeness

/-- A graph with the spellings of the document from which it was read. -/
abbrev ForeignDocument := SpelledGraph Key UnitText Value Value Likeness

end CodeAtlas
