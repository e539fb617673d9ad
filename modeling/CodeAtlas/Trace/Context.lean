import CodeAtlas.Trace.Frame
import CodeAtlas.Graph.Basic
import CodeAtlas.Path
import CodeAtlas.Query.Result

/-!
# The context of a stack trace

Each frame is matched to a node and a method of the graph. The result lists the path that the
trace took, the frames that could not be placed, and the methods of all neighbours of placed
nodes that are not placed themselves.
-/

namespace CodeAtlas

/-- One method, or a node without methods, in a context. -/
structure ContextEntry where
  order : Nat
  className : String
  methodName : Option String
  classType : Option String
  description : Option String
  businessLogic : List String
  endpoint : Option String
  found : Bool
  deriving Repr, DecidableEq, Inhabited

/-- What surrounds a stack trace. -/
structure CodeContext where
  executionPath : List ContextEntry
  missing : List Frame
  related : List ContextEntry
  deriving Repr, DecidableEq, Inhabited

namespace ContextEntry

/-- The written entry. -/
def toJson (e : ContextEntry) : Json :=
  .object [("order", .ofNat e.order), ("className", .string e.className),
    ("methodName", Json.ofOption .string e.methodName),
    ("classType", Json.ofOption .string e.classType),
    ("description", Json.ofOption .string e.description),
    ("businessLogic", Json.ofStrings e.businessLogic),
    ("httpEndpoint", Json.ofOption .string e.endpoint), ("found", .bool e.found)]

/-- The entry of a frame that could not be placed, or only at a node. -/
def unplaced (order : Nat) (className methodName : String) (kind : Option Kind) : ContextEntry :=
  ⟨order, className, some methodName, kind.map Kind.name, none, [], none, false⟩

/-- The entry of a node's method, or of the node itself. -/
def placed (order : Nat) (g : Graph) (id : String) (m : Option Method) : ContextEntry :=
  let kind := (g.nodeInfo? id).map fun i => i.kind.name
  match m with
  | some m =>
    ⟨order, id, some m.name, kind, m.description, m.businessLogic, m.endpoint?, true⟩
  | none => ⟨order, id, none, kind, g.description? id, [], none, true⟩

end ContextEntry

/-- The written context. -/
def CodeContext.toJson (c : CodeContext) : Json :=
  .object [("executionPath", .array (c.executionPath.map ContextEntry.toJson)),
    ("missingContext", .array (c.missing.map Frame.toJson)),
    ("relatedDependencies", .array (c.related.map ContextEntry.toJson))]

namespace Graph

/-- Whether a path is a source file or ends in one, component by component. -/
def endsInFile (path file : String) : Bool := path == file || Text.endsWith path ("/" ++ file)

/-- The better of two nodes for a path: the later one only if its source file is longer. -/
def longerMatch (path : String) (best : Option (String × Nat)) (node : String × String) :
    Option (String × Nat) :=
  if endsInFile path node.2 && (best.map (·.2)).getD 0 < node.2.length then
    some (node.1, node.2.length)
  else best

/-- The first node with the longest source file in which a path ends. -/
def matchFile? (g : Graph) (path : String) : Option String :=
  (g.nodes.toList.foldl (longerMatch path) none).map (·.1)

/-- The first node with the simple name of a class. -/
def matchSimpleName? (g : Graph) (className : String) : Option String :=
  g.identifiers.find? fun id => simpleName id = simpleName className

/-- The node that a frame's file leads to: by its path or, for a bare file of a class, by the
simple name of the class. -/
def matchPath? (g : Graph) (className filePath : String) : Option String :=
  let path := Text.replaceChar filePath '\\' "/"
  match g.matchFile? path with
  | some id => some id
  | none =>
    if className ≠ "" && Text.endsWith (Path.ofText path).name ".java" then
      g.matchSimpleName? className
    else none

/-- The node that a frame belongs to. -/
def matchFrame? (g : Graph) (f : Frame) : Option String :=
  if f.className ≠ "" && g.contains f.className then some f.className
  else
    match f.filePath with
    | some path => if path = "" then none else g.matchPath? f.className path
    | none => none

/-- The first method of a node with a name, bare or qualified. -/
def frameMethod? (g : Graph) (id name : String) : Option Method :=
  (g.methodsOf id).find? fun m => m.name = name || Text.endsWith m.name ("." ++ name)

/-- The entry of one frame. -/
def frameEntry (g : Graph) (order : Nat) (f : Frame) : ContextEntry :=
  match g.matchFrame? f with
  | none => .unplaced order f.className f.methodName none
  | some id =>
    match g.frameMethod? id f.methodName with
    | some m => .placed order g id (some m)
    | none => .unplaced order id f.methodName (some (g.kind id))

/-- The entries of the frames, numbered from `order`. -/
def frameEntries (g : Graph) (order : Nat) : List Frame → List ContextEntry
  | [] => []
  | f :: fs => g.frameEntry order f :: g.frameEntries (order + 1) fs

/-- The entries of a node's methods, or of the node if it has none. -/
def nodeEntries (g : Graph) (id : String) : List (String × Option Method) :=
  match g.methodsOf id with
  | [] => [(id, none)]
  | ms => ms.map fun m => (id, some m)

/-- The neighbours of the given nodes that are not among them, in insertion order. -/
def surrounding (g : Graph) (ids : List String) : List String :=
  let neighbours := ids.flatMap g.neighbours
  g.identifiers.filter fun id => neighbours.contains id && !ids.contains id

/-- The entries numbered from `order`. -/
def numberEntries (g : Graph) (order : Nat) : List (String × Option Method) → List ContextEntry
  | [] => []
  | (id, m) :: rest => .placed order g id m :: g.numberEntries (order + 1) rest

/-- The context of frames. -/
def contextOf (g : Graph) (frames : List Frame) : CodeContext :=
  let path := g.frameEntries 1 frames
  let placed := firstOccurrences ((path.filter (·.found)).map (·.className))
  { executionPath := path
    missing := ((frames.zip path).filter fun (_, e) => !e.found).map (·.1)
    related := g.numberEntries 1 ((g.surrounding placed).flatMap g.nodeEntries) }

end Graph

end CodeAtlas
