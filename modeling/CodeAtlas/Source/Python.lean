import CodeAtlas.Source.File
import CodeAtlas.Source.Languages
import CodeAtlas.Text.Case

/-!
# Units of Python

Every module is a unit; a package's own file stands for the package. Absolute and relative
imports are resolved against the known modules, the longest known part of a dotted name
counting. Route decorators make functions endpoints.
-/

namespace CodeAtlas

/-- A function, or a method with its class in front of its name. -/
structure PythonFunction where
  name : String
  line : Int
  parameterTypes : List String
  exceptions : List String
  httpMethod : Option String
  httpPath : Option String
  deriving Repr, Inhabited

/-- What a module declares and uses. -/
structure PythonModule where
  path : Path
  /-- The dotted origin of each imported name. -/
  imports : Dict String String
  /-- The modules that import statements name; relative ones keep their dots. -/
  modules : List String
  functions : List PythonFunction
  hasMainGuard : Bool
  deriving Inhabited

namespace PythonModule

/-- Decorators that name a verb, and the verb. -/
def routeVerb? (name : String) : Option String :=
  match name with
  | "get" => some "GET"
  | "post" => some "POST"
  | "put" => some "PUT"
  | "delete" => some "DELETE"
  | "patch" => some "PATCH"
  | _ => none

/-- Module names that tell a kind. -/
def nameKinds : List (List String × Kind) :=
  [(["views", "routes", "routers", "api", "endpoints", "controllers"], .controller),
    (["services", "service"], .service),
    (["repositories", "repository", "dao", "crud"], .repository),
    (["models", "entities"], .entity),
    (["schemas", "dto", "serializers"], .dto),
    (["settings", "config", "conf"], .configuration),
    (["consumers", "listeners", "tasks", "handlers"], .listener),
    (["exceptions", "errors"], .exception),
    (["utils", "helpers", "common"], .utility)]

/-- Directories that discovery does not enter in Python repositories. -/
def excludedDirectories : List String := ["migrations", "docs", "scripts"]

/-- The file that stands for a package. -/
def packageFile : String := "__init__.py"

/-- The last part of the identifier of a package's own file. -/
def packagePart : String := ".__init__"

/-- The directory below which modules are named. -/
def sourceRoot (t : FileTree) (repository : Path) : Path :=
  let src := repository.child "src"
  if t.isDirectory src then src else repository

/-- The identifier of a module; a package's own file stands for the package. -/
def identifier (t : FileTree) (file root : Path) : String :=
  let id := fileIdentifier t file root
  if Text.endsWith id packagePart then Text.dropLastChars id packagePart.length else id

/-- The imported names of an import statement, and the modules it names. -/
def plainImports (f : SourceFile) (t : SyntaxTree) : List (String × String) × List String :=
  let parts := (t.childrenOf "name").map fun n =>
    if n.type = "aliased_import" then
      let module := f.fieldText n "name"
      ((f.fieldText n "alias", module), module)
    else
      let module := f.text n
      ((Text.beforeFirst module ".", Text.beforeFirst module "."), module)
  (parts.map (·.1), parts.map (·.2))

/-- The imported names of a statement that imports from a module, and the module. -/
def fromImports (f : SourceFile) (t : SyntaxTree) : List (String × String) × List String :=
  let module := f.fieldText t "module_name"
  if module = "" then ([], [])
  else
    let start := if Text.endsWith module "." then module else module ++ "."
    let names := (t.childrenOf "name").map fun n =>
      if n.type = "aliased_import" then (f.fieldText n "alias", start ++ f.fieldText n "name")
      else (f.text n, start ++ f.text n)
    (names, [module])

/-- The names and modules that a statement imports. -/
def importsOf (f : SourceFile) (t : SyntaxTree) : List (String × String) × List String :=
  if t.type = "import_statement" then plainImports f t
  else if t.type = "import_from_statement" then fromImports f t
  else ([], [])

/-- The text inside a string. -/
def stringValue (f : SourceFile) (t : SyntaxTree) : String :=
  match t.namedChildren.find? (·.type == "string_content") with
  | some c => f.text c
  | none =>
    unquoted (String.ofList
      ((f.text t).toList.dropWhile ['r', 'b', 'f', 'u', 'R', 'B', 'F', 'U'].contains))

/-- The verbs that a keyword argument lists; `none` if it is not about verbs. -/
def listedVerbs? (f : SourceFile) (argument : SyntaxTree) : Option (List String) :=
  if argument.type = "keyword_argument" && f.fieldText argument "name" == "methods" then
    (argument.child? "value").map fun v =>
      (v.namedChildren.filter (·.type == "string")).map fun s => Text.toUpper (stringValue f s)
  else none

/-- The verb and path that a decorator gives a function. -/
def routeOf? (f : SourceFile) (decorator : SyntaxTree) : Option (String × Option String) := do
  let call ← decorator.namedChildren.find? (·.type == "call")
  let fn ← call.child? "function"
  if fn.type ≠ "attribute" then none
  else
    let called := f.fieldText fn "attribute"
    let arguments := ((call.child? "arguments").map (·.namedChildren)).getD []
    let path := (arguments.find? (·.type == "string")).map (stringValue f)
    let verbs := ((arguments.filterMap (listedVerbs? f)).getLast?).getD []
    match routeVerb? called with
    | some verb => some (verb, path)
    | none => if called = "route" then some (verbs.head?.getD "GET", path) else none

/-- What a pattern of an optional type holds between its brackets. -/
def insideOptional? (s : String) : Option String :=
  let cs := s.toList
  let body := if cs.getLast? = some '\n' then cs.dropLast else cs
  let start := "Optional[".toList
  let inner := (body.drop start.length).dropLast
  if start.isPrefixOf body && body.length > start.length + 1 && body.getLast? = some ']' &&
      inner.all (· ≠ '\n') then
    some (String.ofList inner)
  else none

/-- The type that an annotation means: without quotes, the mark of an optional type, further
alternatives and type arguments. -/
def plainType (written : String) : String :=
  let s := unquoted written
  let s := (insideOptional? s).getD s
  Text.trim (Text.beforeFirst (Text.trim (Text.beforeFirst s "|")) "[")

/-- The types of the annotated parameters. -/
def parameterTypesOf (f : SourceFile) (parameters : Option SyntaxTree) : List String :=
  let typed := (((parameters.map (·.namedChildren)).getD []).filter fun p =>
    p.isOneOf ["typed_parameter", "typed_default_parameter"])
  (typed.map fun p => plainType (Text.trim (f.fieldText p "type"))).filter (· ≠ "")

/-- The exception that a raise statement names. -/
def raisedName? (f : SourceFile) (statement : SyntaxTree) : Option String := do
  let first ← statement.namedChildren.head?
  let target := if first.type = "call" then (first.child? "function").getD first else first
  if target.isOneOf ["identifier", "attribute"] then some (f.text target) else none

/-- The exceptions that a body raises, each once. -/
def raisedNames (f : SourceFile) (body : SyntaxTree) : List String :=
  firstOccurrences ((body.descendants ["raise_statement"]).filterMap (raisedName? f))

/-- Reads a function with its decorators, as a member of a class if one is named. -/
def functionOf (f : SourceFile) (className : String) (decorators : List SyntaxTree)
    (t : SyntaxTree) : PythonFunction :=
  let name := f.fieldText t "name"
  let route := decorators.findSome? (routeOf? f)
  { name := if className = "" then name else className ++ "." ++ name
    line := f.line t
    parameterTypes := parameterTypesOf f (t.child? "parameters")
    exceptions := ((t.child? "body").map (raisedNames f)).getD []
    httpMethod := route.map (·.1)
    httpPath := route.bind (·.2) }

/-- A definition without its decorators, and the decorators. -/
def undecorated (t : SyntaxTree) : SyntaxTree × List SyntaxTree :=
  if t.type = "decorated_definition" then
    ((t.child? "definition").getD t, t.children.filter (·.type == "decorator"))
  else (t, [])

/-- The functions of a class; classes inside it are passed over. The count bounds the depth of
decorated classes. -/
def definitionsWithin (f : SourceFile) (className : String) : Nat → SyntaxTree → List PythonFunction
  | 0, _ => []
  | depth + 1, t =>
    let (definition, decorators) := undecorated t
    if definition.type = "class_definition" then
      let name := f.fieldText definition "name"
      let members := ((definition.child? "body").map (·.namedChildren)).getD []
      (members.filter fun m => m.isOneOf ["function_definition", "decorated_definition"]).flatMap
        (definitionsWithin f name depth)
    else if definition.type = "function_definition" then
      [functionOf f className decorators definition]
    else []

/-- The functions that a top-level statement defines. -/
def definitionsOf (f : SourceFile) (t : SyntaxTree) : List PythonFunction :=
  if t.isOneOf ["function_definition", "decorated_definition", "class_definition"] then
    definitionsWithin f "" t.size t
  else []

/-- Whether a statement runs only when the module is the program. -/
def isMainGuard (f : SourceFile) (t : SyntaxTree) : Bool :=
  t.type == "if_statement" && Text.occursIn "__name__" (f.fieldText t "condition") &&
    Text.occursIn "__main__" (f.fieldText t "condition")

/-- Reads a module's declarations and uses off its tree. -/
def ofSource (f : SourceFile) : PythonModule :=
  let tops := f.tree.namedChildren
  let imports := tops.map (importsOf f)
  { path := f.path
    imports := Dict.ofList (imports.flatMap (·.1))
    modules := imports.flatMap (·.2)
    functions := tops.flatMap (definitionsOf f)
    hasMainGuard := tops.any (isMainGuard f) }

/-- The longest known name that a dotted name begins with, cutting at its dots. The count bounds
the cuts. -/
def longestKnownWithin (known : List String) : Nat → String → Option String
  | 0, _ => none
  | bound + 1, dotted =>
    if dotted = "" then none
    else if known.contains dotted then some dotted
    else
      match Text.splitLast? dotted "." with
      | some (before, _) => longestKnownWithin known bound before
      | none => none

/-- The longest known name that a dotted name begins with. -/
def longestKnown? (known : List String) (dotted : String) : Option String :=
  longestKnownWithin known (dotted.length + 1) dotted

/-- The absolute form of a relative reference, from the parts of the module's name. Each dot
after the first leads one package up; a list of parts counts from its end when more are to be
taken off than there are. -/
def absoluteName (parts : List String) (isPackage : Bool) (raw : String) : String :=
  let level := (raw.toList.takeWhile (· = '.')).length
  let rest := String.ofList (raw.toList.dropWhile (· = '.'))
  let base := if isPackage then parts else parts.dropLast
  let base :=
    if level > 1 then
      if level - 1 ≤ base.length then base.take (base.length - (level - 1))
      else base.take (base.length - (level - 1 - base.length))
    else base
  Text.join "." (if rest = "" then base else base ++ [rest])

/-- The known module that a reference means. -/
def resolveModule? (m : PythonModule) (t : FileTree) (root : Path) (known : List String)
    (raw : String) : Option String :=
  if Text.startsWith raw "." then
    longestKnown? known
      (absoluteName (Text.split (identifier t m.path root) '.') (m.path.name == packageFile) raw)
  else longestKnown? known raw

/-- The known modules that the module depends on. -/
def dependencies (m : PythonModule) (t : FileTree) (root : Path) (known : List String) :
    List String :=
  (firstOccurrences ((m.modules ++ m.imports.values).filterMap
    (m.resolveModule? t root known))).filter (· ≠ identifier t m.path root)

/-- Whether a function answers requests; an empty verb is none. -/
def isRoute (fn : PythonFunction) : Bool := (fn.httpMethod.getD "") ≠ ""

/-- Whether the module is reached from outside. -/
def isEntryPoint (m : PythonModule) : Bool := m.hasMainGuard || m.functions.any isRoute

/-- The directories above a file, the nearest first. The count bounds their number. -/
def directoriesAbove : Nat → Path → List Path
  | 0, _ => []
  | bound + 1, p =>
    p.parent :: (if p.parent.parts.isEmpty then [] else directoriesAbove bound p.parent)

/-- The packages around a module, the innermost last, down to the module's own part. The count
bounds their number. The loop of the program has no bound and does not end where `__init__.py`
stands at the root of the file system without a project marker; here it ends after as many
directories as the module's path has. -/
def enclosingPackages (t : FileTree) : Nat → Path → List String → List String
  | 0, _, parts => parts
  | bound + 1, dir, parts =>
    if t.isFile (dir.child packageFile) then
      enclosingPackages t bound dir.parent (dir.name :: parts)
    else parts

/-- The parts of a module's name: below the source root of the nearest project around it or,
without a project, below the packages around it. -/
def nameParts (t : FileTree) (file : Path) : List String :=
  match (directoriesAbove file.parts.length file).find? (Language.python.isMarked t) with
  | some dir => Text.split (identifier t file (sourceRoot t dir)) '.'
  | none =>
    enclosingPackages t file.parts.length file.parent
      (if file.stem = "__init__" then [] else [file.stem])

/-- The kind that one part of a name tells. -/
def kindOfPart? (part : String) : Option Kind :=
  (nameKinds.find? fun e => e.1.contains part).map (·.2)

/-- The kind of the module: by its routes or by the last three parts of its name. -/
def kind (m : PythonModule) (t : FileTree) : Kind :=
  if m.functions.any isRoute then .controller
  else
    let parts := (nameParts t m.path).map Text.toLower
    ((parts.reverse.take 3).findSome? kindOfPart?).getD .other

/-- The functions as units of the graph have them. -/
def extractedMethods (m : PythonModule) : List Method :=
  m.functions.map fun fn =>
    .extracted fn.name fn.exceptions fn.httpMethod fn.httpPath (some fn.line)

/-- The known modules from which the parameter types of each function come. -/
def parameterTargets (m : PythonModule) (t : FileTree) (root : Path) (known : List String) :
    MethodTargets :=
  m.functions.foldl (fun r fn =>
    r.record fn.name (fn.parameterTypes.filterMap fun type =>
      (m.imports.get? (Text.beforeFirst type ".")).bind (m.resolveModule? t root known))) .empty

end PythonModule

end CodeAtlas
