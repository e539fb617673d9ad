import CodeAtlas.Source.File
import CodeAtlas.Source.ModuleAnalysis
import CodeAtlas.Text.Case

/-!
# Units of TypeScript and JavaScript

Every module is a unit. Its tree is walked in document order; below an anonymous node nothing
is looked at. Each visit knows the node's parent and the named siblings in front of it, since
decorators may stand in either place. Decorators, names of exported route handlers and
registrations on an express application make methods endpoints and modules entry points.
-/

namespace CodeAtlas

/-- A node in its place: with its parent and the named siblings in front, nearest first. -/
structure NodeVisit where
  node : SyntaxTree
  parent : Option SyntaxTree
  elders : List SyntaxTree
  deriving Inhabited

namespace NodeVisit

/-- The visits of siblings, of which those in front of the first are given. -/
def ofSiblings (parent : SyntaxTree) (elders : List SyntaxTree) : List SyntaxTree → List NodeVisit
  | [] => []
  | c :: cs => ⟨c, some parent, elders⟩ ::
      ofSiblings parent (if c.named then c :: elders else elders) cs

/-- The visits of the subtrees right below a node. -/
def below (v : NodeVisit) : List NodeVisit := ofSiblings v.node [] v.node.children

theorem map_node_ofSiblings (parent : SyntaxTree) (elders cs : List SyntaxTree) :
    (ofSiblings parent elders cs).map (·.node) = cs := by
  induction cs generalizing elders with
  | nil => rfl
  | cons c cs ih => simp [ofSiblings, ih]

/-- The visits to the named nodes of stacked subtrees: the top one, then those below it, then
the others. Anonymous nodes are passed over with all that is below them. -/
def walk : List NodeVisit → List NodeVisit
  | [] => []
  | v :: rest => if v.node.named then v :: walk (v.below ++ rest) else walk rest
  termination_by stack => SyntaxTree.forestSize (stack.map (·.node))
  decreasing_by
    · simp only [List.map_append, SyntaxTree.forestSize_append, List.map_cons,
        SyntaxTree.forestSize, below, map_node_ofSiblings]
      have := SyntaxTree.forestSize_children_lt v.node
      omega
    · simp only [List.map_cons, SyntaxTree.forestSize]
      have := SyntaxTree.forestSize_children_lt v.node
      omega

/-- The decorators of a node: those in front of it, its own, and those of the export statement
around it. -/
def decorators (v : NodeVisit) : List SyntaxTree :=
  let isDecorator (t : SyntaxTree) : Bool := t.type == "decorator"
  let around := match v.parent with
    | some p => if p.type = "export_statement" then p.children.filter isDecorator else []
    | none => []
  (v.elders.takeWhile isDecorator).reverse ++ v.node.children.filter isDecorator ++ around

end NodeVisit

namespace TypeScript

/-- Directories that discovery does not enter in script projects. -/
def excludedDirectories : List String :=
  ["node_modules", "dist", ".next", "build", "coverage", "__tests__", "__mocks__"]

/-- The node types of classes. -/
def classTypes : List String := ["class_declaration", "abstract_class_declaration", "class"]

/-- The node types of class members that may be methods. -/
def memberTypes : List String :=
  ["method_definition", "public_field_definition", "field_definition"]

/-- The node types of function declarations. -/
def functionTypes : List String := ["function_declaration", "generator_function_declaration"]

/-- The node types of functions as values. -/
def functionValues : List String := ["arrow_function", "function_expression", "function"]

/-- The verb that a decorator of a method stands for. -/
def decoratorVerb? (name : String) : Option String :=
  match name with
  | "Get" => some "GET"
  | "Post" => some "POST"
  | "Put" => some "PUT"
  | "Delete" => some "DELETE"
  | "Patch" => some "PATCH"
  | _ => none

/-- Names of exported functions that handle the requests of a route file. -/
def routeHandlers : List String := ["GET", "POST", "PUT", "DELETE", "PATCH", "HEAD", "OPTIONS"]

/-- Objects on which routes are registered. -/
def routeReceivers : List String := ["app", "router"]

/-- Methods by which routes are registered. -/
def routeMethods : List String := ["get", "post", "put", "delete", "patch", "all", "use"]

/-- Names of files that start programs. -/
def startFiles : List String :=
  ["main.ts", "main.js", "index.ts", "index.js", "app.ts", "app.js", "server.ts", "server.js"]

/-- Parts of file names that tell a kind; the first that occurs counts. -/
def nameKinds : List (String × Kind) :=
  [(".controller.", .controller), (".service.", .service), (".repository.", .repository),
    (".entity.", .entity), (".dto.", .dto), (".config.", .configuration),
    (".middleware.", .utility), (".guard.", .utility), (".interceptor.", .utility),
    (".pipe.", .utility), (".filter.", .utility), (".exception.", .exception),
    (".listener.", .listener), (".module.", .configuration)]

/-- The kind that a file's name tells, ignoring case. -/
def kindOfName (path : String) : Kind :=
  let name := Text.toLower (Path.ofText path).name
  ((nameKinds.find? fun e => Text.occursIn e.1 name).map (·.2)).getD .other

/-- A route's path with its bracketed segments written as parameters: a colon and the name. -/
def routeParameters : List Char → List Char
  | [] => []
  | c :: rest =>
    if c = '[' then
      let name := rest.takeWhile (· ≠ ']')
      if name.isEmpty || name.length = rest.length then c :: routeParameters rest
      else ':' :: (name ++ routeParameters (rest.drop (name.length + 1)))
    else c :: routeParameters rest
  termination_by cs => cs.length
  decreasing_by all_goals simp only [List.length_cons, List.length_drop]; omega

/-- The path of a route file: the directories between the application's directory and the
file. -/
def routePath? (path : String) : Option String :=
  match Text.splitFirst? path "app/" with
  | none => none
  | some (_, after) =>
    match Text.splitLast? after "/route." with
    | none => none
    | some (route, _) => some (String.ofList (routeParameters ('/' :: route.toList)))

/-- The text inside a string. -/
def stringValue (f : SourceFile) (t : SyntaxTree) : String :=
  match t.children.find? (·.type == "string_fragment") with
  | some c => f.text c
  | none => unquoted (f.text t)

/-- The import of one named part of an import clause. -/
def specifierImport (f : SourceFile) (source : String) (t : SyntaxTree) : ModuleImport :=
  let name := f.fieldText t "name"
  let ownName := f.fieldText t "alias"
  ⟨name, if ownName = "" then name else ownName, source⟩

/-- The imports of one part of an import clause. -/
def clauseImports (f : SourceFile) (source : String) (t : SyntaxTree) : List ModuleImport :=
  if t.type = "identifier" then [⟨"default", f.text t, source⟩]
  else if t.type = "namespace_import" then
    (t.children.filter (·.type == "identifier")).map fun c => ⟨"*", f.text c, source⟩
  else if t.type = "named_imports" then
    (t.namedChildren.filter (·.type == "import_specifier")).map (specifierImport f source)
  else []

/-- The imports of an import statement. -/
def importsOf (f : SourceFile) (t : SyntaxTree) : List ModuleImport :=
  match t.child? "source" with
  | none => []
  | some s =>
    ((t.children.filter (·.type == "import_clause")).flatMap (·.children)).flatMap
      (clauseImports f (stringValue f s))

/-- The path that a decorator's first argument names, if it is a string. -/
def decoratorPath? (f : SourceFile) (call : SyntaxTree) : Option String :=
  ((call.child? "arguments").bind fun a => a.namedChildren.head?).bind fun a =>
    if a.isOneOf ["string", "template_string"] then some (stringValue f a) else none

/-- The name of a decorator and the path that it names. -/
def decoratorParts (f : SourceFile) (t : SyntaxTree) : String × Option String :=
  match t.namedChildren.find? fun c =>
    c.isOneOf ["call_expression", "identifier", "member_expression"] with
  | none => ("", none)
  | some c =>
    if c.type = "call_expression" then (f.fieldText c "function", decoratorPath? f c)
    else (f.text c, none)

/-- The name of the type in a type annotation, empty if it has none. -/
def annotatedType (f : SourceFile) (mark : SyntaxTree) : String :=
  (mark.namedChildren.findSome? fun c =>
    if c.type = "type_identifier" then some (f.text c)
    else if c.type = "generic_type" then
      (c.child? "name").bind fun n => if n.type = "type_identifier" then some (f.text n) else none
    else none).getD ""

/-- The names of the types of a function's parameters. -/
def parameterTypes (f : SourceFile) (function : SyntaxTree) : List String :=
  match function.child? "parameters" with
  | none => []
  | some ps =>
    let parameters := ps.namedChildren.filter fun p =>
      p.isOneOf ["required_parameter", "optional_parameter"]
    let annotations := parameters.flatMap fun p =>
      p.children.filter (·.type == "type_annotation")
    (annotations.map (annotatedType f)).filter (· ≠ "")

/-- What a module analysis depends on besides the module itself. -/
structure Setting where
  path : String
  /-- Whether exported functions of the module handle requests. -/
  isRouteFile : Bool
  deriving Repr, Inhabited

/-- The setting of a module in a framework. -/
def Setting.ofFramework (path framework : String) : Setting :=
  ⟨path, framework = "nextjs" && Text.occursIn "route." path⟩

/-- A function as a method; in a route file a verb's name makes it an endpoint. -/
def functionMethod (f : SourceFile) (s : Setting) (name : String) (anchor function : SyntaxTree) :
    ModuleMethod :=
  if s.isRouteFile && routeHandlers.contains name then
    ⟨name, some (f.line anchor), some name, routePath? s.path, parameterTypes f function⟩
  else ⟨name, some (f.line anchor), none, none, parameterTypes f function⟩

/-- The verb and path of the first decorator that stands for a verb. -/
def memberRoute? (f : SourceFile) (v : NodeVisit) : Option (String × Option String) :=
  v.decorators.findSome? fun d =>
    let (name, path) := decoratorParts f d
    (decoratorVerb? name).map fun verb => (verb, path)

/-- The function of a class member. -/
def memberFunction? (t : SyntaxTree) : Option SyntaxTree :=
  if t.type = "method_definition" then some t
  else (t.child? "value").filter fun v => v.isOneOf functionValues

/-- A class member as a method. -/
def memberMethod? (f : SourceFile) (v : NodeVisit) : Option ModuleMethod :=
  match memberFunction? v.node with
  | none => none
  | some function =>
    let name := match v.node.child? "name" with
      | some n => f.text n
      | none => f.fieldText v.node "property"
    if name = "" then none
    else
      let route := memberRoute? f v
      some ⟨name, some (f.line v.node), route.map (·.1), route.bind (·.2),
        parameterTypes f function⟩

/-- A property of an object as a method. -/
def propertyMethod? (f : SourceFile) (t : SyntaxTree) : Option ModuleMethod :=
  match t.child? "key", t.child? "value" with
  | some key, some value =>
    if key.type = "property_identifier" && value.isOneOf functionValues then
      some ⟨f.text key, some (f.line t), none, none, parameterTypes f value⟩
    else none
  | _, _ => none

/-- The analysis with a method added. -/
def addMethod (a : ModuleAnalysis) (m : ModuleMethod) : ModuleAnalysis :=
  { a with methods := a.methods ++ [m] }

/-- Adds what a declared variable brings: a function, a function wrapped by a call, or a
required module. -/
def addVariable (f : SourceFile) (s : Setting) (a : ModuleAnalysis) (t : SyntaxTree) :
    ModuleAnalysis :=
  match t.child? "name", t.child? "value" with
  | some nameNode, some value =>
    if nameNode.type ≠ "identifier" then a
    else
      let name := f.text nameNode
      if value.isOneOf functionValues then addMethod a (functionMethod f s name t value)
      else if value.type ≠ "call_expression" then a
      else
        match (value.child? "arguments").bind fun args => args.namedChildren.head? with
        | none => a
        | some first =>
          if f.fieldText value "function" = "require" && first.type = "string" then
            { a with imports := a.imports ++ [⟨"default", name, stringValue f first⟩] }
          else if first.isOneOf functionValues then
            addMethod a (functionMethod f s name t first)
          else a
  | _, _ => a

/-- What one decorator of a class says about the module. -/
def applyClassDecorator (f : SourceFile) (a : ModuleAnalysis) (d : SyntaxTree) : ModuleAnalysis :=
  match (decoratorParts f d).1 with
  | "Controller" => { a with kind := .controller, isEntryPoint := true }
  | "Injectable" => if a.kind = .other then { a with kind := .service } else a
  | "Component" | "Directive" | "Pipe" => { a with kind := .utility }
  | "NgModule" => { a with kind := .configuration }
  | _ => a

/-- Whether a call registers a route. -/
def registersRoute (f : SourceFile) (call : SyntaxTree) : Bool :=
  match call.child? "function" with
  | none => false
  | some fn =>
    fn.type == "member_expression" &&
      match fn.child? "object" with
      | none => false
      | some receiver =>
        receiver.type == "identifier" && routeReceivers.contains (f.text receiver) &&
          routeMethods.contains (f.fieldText fn "property")

/-- The analysis with what one visited node adds. -/
def visit (f : SourceFile) (s : Setting) (a : ModuleAnalysis) (v : NodeVisit) : ModuleAnalysis :=
  let t := v.node
  if t.type = "import_statement" then { a with imports := a.imports ++ importsOf f t }
  else if t.isOneOf classTypes then v.decorators.foldl (applyClassDecorator f) a
  else if t.isOneOf memberTypes then (memberMethod? f v).elim a (addMethod a)
  else if t.isOneOf functionTypes then
    let name := f.fieldText t "name"
    if name = "" then a else addMethod a (functionMethod f s name t t)
  else if t.type = "variable_declarator" then addVariable f s a t
  else if t.type = "pair" then (propertyMethod? f t).elim a (addMethod a)
  else if t.type = "call_expression" && registersRoute f t then
    { a with isEntryPoint := true, kind := if a.kind = .other then .controller else a.kind }
  else a

/-- The analysis completed by what the methods and the file's name tell. -/
def complete (path : String) (a : ModuleAnalysis) : ModuleAnalysis :=
  { a with
    isEntryPoint := a.isEntryPoint || a.methods.any (fun m => m.httpMethod.isSome) ||
      startFiles.contains (Path.ofText path).name
    kind := if a.kind = .other then kindOfName path else a.kind }

/-- The analysis of a module, given by its path in the project and the project's framework. -/
def analyze (f : SourceFile) (path framework : String) : ModuleAnalysis :=
  let s := Setting.ofFramework path framework
  complete path ((NodeVisit.walk [⟨f.tree, none, []⟩]).foldl (visit f s) .empty)

end TypeScript

end CodeAtlas
