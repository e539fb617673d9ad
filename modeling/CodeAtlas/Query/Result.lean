import CodeAtlas.Query.Token
import CodeAtlas.Registry

/-!
# Answers to queries

A query names a project and asks for a list of its endpoints, classes or entry points, or
navigates from one class. Every answer is a result: a failure is a result without items.
Items are records whose fields depend on what was asked; absent texts are written as null.
-/

namespace CodeAtlas

/-! ## Names of units -/

/-- The part of an identifier after its last dot. -/
def simpleName (id : String) : String := Text.afterLast id "."

namespace Graph

/-- The node that a name means. -/
def resolve? (g : Graph) (name : String) : Option String :=
  if g.contains name then some name
  else
    let lowered := Text.toLower name
    match g.identifiers.find? fun id => Text.toLower (simpleName id) == lowered with
    | some id => some id
    | none => g.identifiers.find? fun id => Text.occursIn lowered (Text.toLower id)

/-- The first method of a node with a name, ignoring case. -/
def findMethod? (g : Graph) (id name : String) : Option Method :=
  (g.methodsOf id).find? fun m => Text.sameIgnoringCase m.name name

end Graph

/-! ## Results -/

/-- The answer to a query. -/
structure QueryResult where
  resultType : String
  project : String
  /-- The number of items, as it is told. -/
  count : Nat
  items : List Json
  error : Option (ErrorKind × String)
  deriving Inhabited

namespace QueryResult

/-- An answer with items. -/
def of (resultType project : String) (items : List Json) : QueryResult :=
  ⟨resultType, project, items.length, items, none⟩

/-- A failure. -/
def failure (project : String) (kind : ErrorKind) (message : String) : QueryResult :=
  ⟨"error", project, 0, [], some (kind, message)⟩

/-- Whether the query succeeded. -/
def ok (r : QueryResult) : Bool := r.error.isNone

/-- The written answer. -/
def toJson (r : QueryResult) : Json :=
  .object <|
    [("resultType", .string r.resultType), ("project", .string r.project),
      ("count", .ofNat r.count), ("results", .array r.items)] ++
    (match r.error with
      | some (kind, message) =>
        [("error", .object [("kind", .string kind.code), ("message", .string message)])]
      | none => [])

end QueryResult

namespace Graph

/-- The name of a node's kind, null for a node that was not classified. -/
def kindJson (g : Graph) (id : String) : Json :=
  Json.ofOption (fun i : NodeInfo => .string i.kind.name) (g.nodeInfo? id)

/-- The fields that describe a node. -/
def summaryFields (g : Graph) (id : String) : List (String × Json) :=
  [("className", .string id), ("classType", g.kindJson id),
    ("description", Json.ofOption .string (g.description? id)),
    ("sourceFile", Json.ofOption .string (g.sourceFile? id))]

/-- The verb and path of a method, if it answers requests. -/
def endpointField (m : Method) : List (String × Json) :=
  if m.isEndpoint then [("httpEndpoint", Json.ofOption .string m.endpoint?)] else []

/-- The business rules of a method, if they are asked for. -/
def logicField (wanted : Bool) (m : Method) : List (String × Json) :=
  if wanted then [("businessLogic", Json.ofStrings m.businessLogic)] else []

/-- The fields that name and describe a method. -/
def methodFields (m : Method) : List (String × Json) :=
  [("methodName", .string m.name), ("description", Json.ofOption .string m.description)]

/-- The fields that show what extraction found out about a method. -/
def detailFields (m : Method) : List (String × Json) :=
  ("exceptions", Json.ofStrings m.exceptions) ::
  (if m.isEndpoint then
    [("httpMethod", Json.ofOption .string m.httpMethod),
      ("httpPath", Json.ofOption .string m.httpPath)]
  else []) ++
  (match m.lineNumber with
    | some n => [("lineNumber", .int n)]
    | none => [])

/-- Short descriptions of a node's methods. -/
def methodSummaries (g : Graph) (id : String) (logic : Bool) : Json :=
  .array ((g.methodsOf id).map fun m =>
    .object (methodFields m ++ endpointField m ++ logicField logic m))

/-- The item for one endpoint. -/
def endpointItem (g : Graph) (logic : Bool) (id : String) (m : Method) : Json :=
  .object <|
    [("className", .string id), ("classType", g.kindJson id), ("methodName", .string m.name),
      ("httpMethod", Json.ofOption .string m.httpMethod),
      ("httpPath", Json.ofOption .string m.httpPath),
      ("description", Json.ofOption .string m.description)] ++ logicField logic m

/-- The item for one class in the list of classes. -/
def classItem (g : Graph) (dependencies dependents methods : Bool) (id : String) : Json :=
  .object <|
    g.summaryFields id ++ [("entryPoint", .bool (g.isEntryPoint id))] ++
    (if dependencies then [("dependencies", Json.ofStrings (g.dependencies id))] else []) ++
    (if dependents then [("dependents", Json.ofStrings (g.dependents id))] else []) ++
    (if methods then [("methods", g.methodSummaries id false)] else [])

/-- The item for one entry point. -/
def entryPointItem (g : Graph) (logic : Bool) (id : String) : Json :=
  let endpoints := ((g.methodsOf id).filter (·.isEndpoint)).map fun m =>
    Json.object <|
      [("methodName", .string m.name), ("httpEndpoint", Json.ofOption .string m.endpoint?),
        ("description", Json.ofOption .string m.description)] ++ logicField logic m
  .object [("className", .string id), ("classType", g.kindJson id),
    ("description", Json.ofOption .string (g.description? id)), ("endpoints", .array endpoints)]

/-- The item that shows a class with all that surrounds it. -/
def overviewItem (g : Graph) (logic : Bool) (id : String) : Json :=
  .object <|
    g.summaryFields id ++
    [("entryPoint", .bool (g.isEntryPoint id)),
      ("dependencies", Json.ofStrings (g.dependencies id)),
      ("dependents", Json.ofStrings (g.dependents id)),
      ("methods", g.methodSummaries id logic)]

/-- The item for one method in the list of a class's methods. -/
def methodItem (logic : Bool) (m : Method) : Json :=
  .object (methodFields m ++ logicField logic m ++ detailFields m)

/-- The item for the one method that was asked for. -/
def singleMethodItem (id : String) (m : Method) : Json :=
  .object (("className", .string id) :: methodFields m ++ logicField true m ++ detailFields m)

/-- The item that tells whether a class has a method. -/
def checkItem (g : Graph) (id word : String) : Json :=
  let method := g.findMethod? id word
  .object <|
    [("className", .string id), ("check", .string word), ("exists", .bool method.isSome)] ++
    (match method with
      | some m => methodFields m ++ endpointField m
      | none => [])

end Graph

namespace Query

/-- What the words after a class ask for. -/
inductive ClassView where
  | overview
  | methods
  | dependencies
  | dependents
  | method (name : String)
  deriving Repr, DecidableEq

/-- The view that the words after a class ask for. A word that is not known asks for the
overview; a method without a name is out of range. -/
def classView : List String → Outcome ClassView
  | [] => .ok .overview
  | word :: rest =>
    let lowered := Text.toLower word
    if lowered = "methods" then .ok .methods
    else if lowered = "dependencies" then .ok .dependencies
    else if lowered = "dependents" then .ok .dependents
    else if lowered = "method" then
      match rest with
      | name :: _ => .ok (.method name)
      | [] => .error .outOfRange
    else .ok .overview

/-- The answer of a view of one class. -/
def viewClass (q : Query) (g : Graph) (id : String) : ClassView → Outcome QueryResult
  | .overview => .ok (.of "class" q.project [g.overviewItem (q.hasInclude "logic") id])
  | .methods =>
    .ok (.of "methods" q.project ((g.methodsOf id).map (Graph.methodItem (q.hasInclude "logic"))))
  | .dependencies =>
    .ok (.of "dependencies" q.project
      ((g.dependencies id).map fun n => .object (g.summaryFields n)))
  | .dependents =>
    .ok (.of "dependents" q.project ((g.dependents id).map fun n => .object (g.summaryFields n)))
  | .method name =>
    match g.findMethod? id name with
    | some m => .ok (.of "method" q.project [Graph.singleMethodItem id m])
    | none =>
      .error (.reported .methodNotFound ("Method not found: " ++ name ++ " in class " ++ id))

/-- The answer for a query that navigates from a class. -/
def navigateClass (q : Query) (g : Graph) (target : String) (rest : List String) :
    Outcome QueryResult :=
  match g.resolve? target with
  | none =>
    .error (.reported .classNotFound
      ("Class not found: " ++ target ++ " in project " ++ q.project))
  | some id =>
    match q.checkWord? with
    | some word => .ok (.of "check" q.project [g.checkItem id word])
    | none => do q.viewClass g id (← classView rest)

/-- The answer on a graph. -/
def onGraph (q : Query) (g : Graph) : Outcome QueryResult :=
  match q.navigations with
  | [] => .error .outOfRange
  | target :: rest =>
    let lowered := Text.toLower target
    if lowered = "endpoints" then
      .ok (.of "endpoints" q.project
        (g.endpoints.map fun (id, m) => g.endpointItem (q.hasInclude "logic") id m))
    else if lowered = "classes" then
      .ok (.of "classes" q.project
        (g.identifiers.map (g.classItem (q.hasInclude "dependencies") (q.hasInclude "dependents")
          (q.hasInclude "methods"))))
    else if lowered = "entrypoints" then
      .ok (.of "entrypoints" q.project
        (g.entryPoints.map (g.entryPointItem (q.hasInclude "logic"))))
    else q.navigateClass g target rest

/-- The answer from the graph of the project that the query names. -/
def answer (q : Query) (r : Registry) : Outcome QueryResult :=
  match r.getByName? q.project with
  | some g => q.onGraph g
  | none => .error (.reported .projectNotFound ("Project not found: " ++ q.project))

end Query

namespace Registry

/-- Turns a failure of the domain into a result; other failures are passed on. -/
def settle (project : String) : Outcome QueryResult → Outcome QueryResult
  | .error (.reported kind message) => .ok (.failure project kind message)
  | outcome => outcome

/-- Answers a query that has been read. -/
def executeQuery (r : Registry) (q : Query) : Outcome QueryResult := settle q.project (q.answer r)

/-- Answers a query text. -/
def execute (r : Registry) (text : Option String) : Outcome QueryResult :=
  match Query.parse? text with
  | .error fault => settle "" (.error fault.failure)
  | .ok q => r.executeQuery q

end Registry

end CodeAtlas
