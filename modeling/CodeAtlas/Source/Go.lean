import CodeAtlas.Ignore.Rules
import CodeAtlas.Source.File
import CodeAtlas.Text.Case

/-!
# Units of Go

Every file is a unit of its own. An import of a package of the module is a dependency on each
file of that package; parameter types lead to the file that declares them. Handlers and route
registrations make a file an entry point of requests.
-/

namespace CodeAtlas

/-- A function or method with its receiver's type in front of its name. -/
structure GoFunction where
  name : String
  line : Int
  parameterTypes : List String
  panics : Bool
  deriving Repr, Inhabited

/-- What a Go file declares and uses. -/
structure GoFile where
  path : Path
  package : String
  /-- The imported paths by the names under which they are used. -/
  imports : Dict String String
  functions : List GoFunction
  declaredTypes : List String
  registersRoutes : Bool
  deriving Inhabited

namespace GoFile

/-- Methods of routers that register routes. -/
def routeCalls : List String :=
  ["GET", "POST", "PUT", "DELETE", "PATCH", "HEAD", "OPTIONS", "Get", "Post", "Put", "Delete",
    "Patch", "Handle", "HandleFunc", "Group", "Route", "Any"]

/-- Parameter types that mark a function as a request handler. -/
def handlerTypes : List String :=
  ["http.ResponseWriter", "http.Request", "gin.Context", "echo.Context", "fiber.Ctx"]

/-- Words in directory and file names that tell a kind; the first that occurs counts. -/
def nameWords : List (List String × Kind) :=
  [(["handler", "controller", "api", "transport", "http", "rest", "grpc", "endpoint"], .controller),
    (["service", "usecase", "application"], .service),
    (["repository", "repo", "store", "storage", "dao", "persistence", "database"], .repository),
    (["model", "entity", "domain"], .entity),
    (["dto", "request", "response", "payload", "schema"], .dto),
    (["config", "cfg", "configuration"], .configuration),
    (["listener", "consumer", "subscriber", "worker", "queue"], .listener),
    (["util", "utils", "helper", "helpers", "middleware", "interceptor", "pkg"], .utility)]

/-- Directories that discovery does not enter in Go repositories. -/
def excludedDirectories : List String := ["vendor", "testdata", "third_party", "tools"]

/-- The name under which an import is used, and its path; nothing for an empty path. Blank and
dot imports are used under the last segment of their path. -/
def importOf? (f : SourceFile) (spec : SyntaxTree) : Option (String × String) :=
  let path := unquoted (f.fieldText spec "path")
  if path = "" then none
  else
    let ownName := f.fieldText spec "name"
    if ownName = "" || ownName = "_" || ownName = "." then some (Text.afterLast path "/", path)
    else some (ownName, path)

/-- The text from the first character that is not one of the given ones. -/
def dropLeading (chars : List Char) (s : String) : String :=
  String.ofList (s.toList.dropWhile chars.contains)

/-- The type of a method's receiver without stars and type parameters. -/
def receiverType (f : SourceFile) (receiver : SyntaxTree) : String :=
  let parameters := receiver.namedChildren.filter (·.type == "parameter_declaration")
  let written := (parameters.getLast?.map fun p => f.fieldText p "type").getD ""
  Text.beforeFirst (dropLeading ['*'] written) "["

/-- The types of the parameters, one for each name that is declared. -/
def parameterTypesOf (f : SourceFile) (parameters : SyntaxTree) : List String :=
  (parameters.namedChildren.filter fun p =>
    p.isOneOf ["parameter_declaration", "variadic_parameter_declaration"]).flatMap fun p =>
      List.replicate (max 1 (p.childrenOf "name").length) (f.fieldText p "type")

/-- Whether a body calls the built-in panic. -/
def callsPanic (f : SourceFile) (body : SyntaxTree) : Bool :=
  (body.descendants ["call_expression"]).any fun call =>
    match call.child? "function" with
    | some fn => fn.type == "identifier" && f.text fn == "panic"
    | none => false

/-- Whether a body registers a route. -/
def registersRoute (f : SourceFile) (body : SyntaxTree) : Bool :=
  (body.descendants ["call_expression"]).any fun call =>
    match call.child? "function" with
    | some fn => fn.type == "selector_expression" && routeCalls.contains (f.fieldText fn "field")
    | none => false

/-- Reads a function or method. -/
def functionOf (f : SourceFile) (t : SyntaxTree) : GoFunction :=
  let name := f.fieldText t "name"
  let receiver := ((t.child? "receiver").map (receiverType f)).getD ""
  { name := if receiver = "" then name else receiver ++ "." ++ name
    line := f.line t
    parameterTypes := ((t.child? "parameters").map (parameterTypesOf f)).getD []
    panics := ((t.child? "body").map (callsPanic f)).getD false }

/-- Reads a file's declarations and uses off its tree. -/
def ofSource (f : SourceFile) : GoFile :=
  let tops := f.tree.namedChildren
  let functions := tops.filter fun c => c.isOneOf ["function_declaration", "method_declaration"]
  let packages := (tops.filter (·.type == "package_clause")).flatMap (·.namedChildren)
  let specs := (tops.filter (·.type == "import_declaration")).flatMap fun c =>
    c.descendants ["import_spec"]
  let types := ((tops.filter (·.type == "type_declaration")).flatMap (·.namedChildren)).filter
    fun c => c.isOneOf ["type_spec", "type_alias"]
  { path := f.path
    package := f.text? packages.getLast?
    imports := Dict.ofList (specs.filterMap (importOf? f))
    functions := functions.map (functionOf f)
    declaredTypes := types.map fun c => f.fieldText c "name"
    registersRoutes := functions.any fun c =>
      ((c.child? "body").map (registersRoute f)).getD false }

/-- Whether a function handles requests. -/
def isHandler (fn : GoFunction) : Bool :=
  fn.parameterTypes.any fun p => handlerTypes.any fun h => Text.occursIn h p

/-- The module path that a manifest declares, empty if it declares none. -/
def modulePathOf (manifest : String) : String :=
  match ((Text.lines manifest).map Text.trim).find? fun l => Text.startsWith l "module " with
  | some line => unquoted (Text.trim (Text.dropChars line 7))
  | none => ""

/-- The module path of a repository, empty without a manifest. -/
def modulePath (t : FileTree) (root : Path) : Outcome String :=
  let path := root.child "go.mod"
  if t.isFile path then
    match t.readBytes path with
    | .ok content => (FileTree.decode content).map modulePathOf
    | .error _ => .ok ""
  else .ok ""

/-- The dotted directory of an imported package of the module. -/
def packageOf? (module importPath : String) : Option String :=
  if module = "" then none
  else if importPath = module then some ""
  else if Text.startsWith importPath (module ++ "/") then
    some (Text.replaceChar (Text.dropChars importPath (module.length + 1)) '/' ".")
  else none

/-- The part of an identifier before its last dot, empty without one. -/
def packageOfIdentifier (id : String) : String :=
  match Text.splitLast? id "." with
  | some (package, _) => package
  | none => ""

/-- The known units that the file depends on: all of every imported package. -/
def dependencies (g : GoFile) (module own : String) (known : List String) : List String :=
  let packages := g.imports.values.filterMap (packageOf? module)
  (firstOccurrences (packages.flatMap fun p =>
    known.filter fun k => packageOfIdentifier k = p)).filter (· ≠ own)

/-- Whether the file is reached from outside: it holds the program's start or registers
routes. -/
def isEntryPoint (g : GoFile) : Bool :=
  (g.package == "main" && g.functions.any (·.name == "main")) || g.registersRoutes

/-- The kind that a name tells. -/
def kindOfName? (name : String) : Option Kind :=
  (nameWords.find? fun e => e.1.any fun w => Text.occursIn w name).map (·.2)

/-- The kind of the unit: by its handlers, its directory's name or its own. -/
def kind (g : GoFile) : Kind :=
  if g.functions.any isHandler then .controller
  else
    match kindOfName? (Text.toLower g.path.parent.name) with
    | some k => k
    | none => (kindOfName? (Text.toLower g.path.stem)).getD .other

/-- The methods as units of the graph have them. -/
def extractedMethods (g : GoFile) : List Method :=
  g.functions.map fun fn =>
    .extracted fn.name (if fn.panics then ["panic"] else [])
      (if isHandler fn then some "GET" else none) (if isHandler fn then some "" else none)
      (some fn.line)

/-- The Go files of a directory that are examined, by name. -/
def packageFiles (t : FileTree) (dir : Path) : List Path :=
  if t.isDirectory dir then
    let names := (t.namesBelow (t.resolve dir).parts).filter fun n =>
      Text.endsWith n ".go" && !Ignore.isIgnoredFile n
    Path.sorted (names.map dir.child)
  else []

/-- The unit of the first file, among those given, that declares a type. -/
def declaringUnit? (t : FileTree) (root : Path) (name : String) : List Path → Outcome
    (Option String)
  | [] => .ok none
  | p :: ps => do
    let g := ofSource (← SourceFile.read t p)
    let rest ← declaringUnit? t root name ps
    return if g.declaredTypes.contains name then some (fileIdentifier t p root) else rest

/-- A written type without stars, brackets and dots in front and without type parameters. -/
def plainType (written : String) : String :=
  let s := dropLeading ['*', '[', ']'] written
  let s := if Text.startsWith s "..." then Text.dropChars s 3 else s
  Text.beforeFirst (dropLeading ['*'] s) "["

/-- The directory of a package, given by its dotted name. -/
def packageDirectory (root : Path) (package : String) : Path :=
  ⟨root.absolute, root.parts ++ (Text.split package '.').filter (· ≠ "")⟩

/-- The unit that declares a written type. -/
def resolveType? (g : GoFile) (t : FileTree) (root : Path) (module written : String) :
    Outcome (Option String) :=
  let name := plainType written
  match Text.splitLast? name "." with
  | some (qualifier, simple) =>
    match (g.imports.get? qualifier).bind (packageOf? module) with
    | some package => declaringUnit? t root simple (packageFiles t (packageDirectory root package))
    | none => .ok none
  | none => declaringUnit? t root name (packageFiles t g.path.parent)

/-- The known units that the parameters of each function are. -/
def parameterTargets (g : GoFile) (t : FileTree) (root : Path) (module : String)
    (known : List String) : Outcome MethodTargets :=
  g.functions.foldlM (fun r fn => do
    let units ← fn.parameterTypes.mapM (g.resolveType? t root module)
    return r.record fn.name ((units.filterMap id).filter known.contains)) .empty

end GoFile

end CodeAtlas
