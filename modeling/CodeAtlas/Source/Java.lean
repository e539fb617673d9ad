import CodeAtlas.Source.File

/-!
# Units of Java

What a Java file declares and uses. Its unit is the type named like the file, or the first
one; imports and the simple names of types decide the dependencies, annotations and names
decide the kind, and mapping annotations make methods endpoints.
-/

namespace CodeAtlas

/-- An annotation with its arguments; a lone argument is called value. -/
structure JavaAnnotation where
  name : String
  arguments : Dict String String
  deriving Inhabited

/-- A method or constructor. -/
structure JavaMethod where
  name : String
  line : Int
  annotations : List JavaAnnotation
  parameterTypes : List String
  exceptions : List String
  deriving Inhabited

/-- An import declaration. -/
structure JavaImport where
  name : String
  isStatic : Bool
  isWildcard : Bool
  deriving Repr, Inhabited

/-- What a Java file declares and uses. -/
structure JavaFile where
  stem : String
  package : String
  imports : List JavaImport
  typeName : String
  annotations : List JavaAnnotation
  methods : List JavaMethod
  /-- Every simple name that stands where a type is meant. -/
  typeReferences : List String
  deriving Inhabited

namespace JavaFile

/-- The node types of type declarations. -/
def typeDeclarations : List String :=
  ["class_declaration", "interface_declaration", "enum_declaration", "record_declaration",
    "annotation_type_declaration"]

/-- Annotations that make a unit an entry point, on the type or on a method. -/
def entryPointAnnotations : List String :=
  ["RestController", "Controller", "KafkaListener", "Scheduled", "EventListener",
    "SpringBootApplication"]

/-- The kind that an annotation of the type tells. -/
def annotationKind? (name : String) : Option Kind :=
  match name with
  | "RestController" | "Controller" => some .controller
  | "Service" => some .service
  | "Repository" => some .repository
  | "Configuration" => some .configuration
  | "Entity" => some .entity
  | "KafkaListener" | "EventListener" => some .listener
  | _ => none

/-- Annotations of methods that make the unit a listener. -/
def listenerAnnotations : List String := ["KafkaListener", "EventListener"]

/-- The verb that a mapping annotation stands for. -/
def mappingVerb? (name : String) : Option String :=
  match name with
  | "GetMapping" => some "GET"
  | "PostMapping" => some "POST"
  | "PutMapping" => some "PUT"
  | "DeleteMapping" => some "DELETE"
  | "PatchMapping" => some "PATCH"
  | _ => none

/-- Endings of type names that tell a kind; the first that fits counts. -/
def nameEndings : List (List String × Kind) :=
  [(["Exception", "Error"], .exception),
    (["Dto", "DTO", "Request", "Response"], .dto),
    (["Config", "Configuration"], .configuration),
    (["Util", "Utils", "Helper", "Helpers"], .utility),
    (["Controller", "Resource"], .controller),
    (["Service", "ServiceImpl"], .service),
    (["Repository", "Dao"], .repository),
    (["Listener", "Consumer"], .listener)]

/-- The name that a package or import declaration declares. -/
def declaredName (f : SourceFile) (t : SyntaxTree) : String :=
  f.text? (t.namedChildren.find? fun c => c.isOneOf ["scoped_identifier", "identifier"])

/-- Reads an import declaration. -/
def importOf (f : SourceFile) (t : SyntaxTree) : JavaImport :=
  ⟨declaredName f t, t.children.any (·.type == "static"), t.children.any (·.type == "asterisk")⟩

/-- The value of an annotation's argument; of an array its first element. -/
def argumentValue (f : SourceFile) : SyntaxTree → String
  | .node type named field start stop children =>
    if type = "element_value_array_initializer" then firstNamedValue f children
    else
      let text := f.text (.node type named field start stop children)
      if type = "string_literal" then unquoted text else text
where
  /-- The value of the first named subtree, empty for none. -/
  firstNamedValue (f : SourceFile) : List SyntaxTree → String
    | [] => ""
    | c :: rest => if c.named then argumentValue f c else firstNamedValue f rest

/-- The arguments of an annotation. -/
def annotationArguments (f : SourceFile) (t : SyntaxTree) : Dict String String :=
  match t.child? "arguments" with
  | none => .empty
  | some arguments =>
    arguments.namedChildren.foldl (fun values c =>
      if c.type = "element_value_pair" then
        values.insert (f.fieldText c "key") (((c.child? "value").map (argumentValue f)).getD "")
      else if c.isOneOf ["line_comment", "block_comment"] then values
      else values.insert "value" (argumentValue f c)) .empty

/-- The annotations among the modifiers of a declaration. -/
def annotationsOf (f : SourceFile) (t : SyntaxTree) : List JavaAnnotation :=
  ((t.children.filter (·.type == "modifiers")).flatMap (·.namedChildren)).filterMap fun m =>
    if m.isOneOf ["marker_annotation", "annotation"] then
      some ⟨Text.afterLast (f.fieldText m "name") ".", annotationArguments f m⟩
    else none

/-- The types of the declared parameters; of a variable number of parameters their type. -/
def parameterTypesOf (f : SourceFile) (parameters : Option SyntaxTree) : List String :=
  ((parameters.map (·.namedChildren)).getD []).filterMap fun p =>
    if p.type = "formal_parameter" then some (f.fieldText p "type")
    else if p.type = "spread_parameter" then
      (p.namedChildren.find? fun c => !c.isOneOf ["modifiers", "variable_declarator"]).map f.text
    else none

/-- The exceptions that a method declares. -/
def thrownTypes (f : SourceFile) (t : SyntaxTree) : List String :=
  match t.children.find? (·.type == "throws") with
  | some c => c.namedChildren.map f.text
  | none => []

/-- Reads a method or constructor. -/
def methodOf (f : SourceFile) (t : SyntaxTree) : JavaMethod :=
  ⟨f.fieldText t "name", f.line t, annotationsOf f t,
    parameterTypesOf f (t.child? "parameters"), thrownTypes f t⟩

/-- The methods and constructors of a type declaration. -/
def methodsOf (f : SourceFile) (t : SyntaxTree) : List JavaMethod :=
  match t.child? "body" with
  | none => []
  | some body =>
    (body.namedChildren.filter fun m =>
      m.isOneOf ["method_declaration", "constructor_declaration"]).map (methodOf f)

/-- The declaration of the file's unit: the one named like the file, or the first. -/
def primaryDeclaration? (f : SourceFile) (declarations : List SyntaxTree) : Option SyntaxTree :=
  match declarations.find? fun d => f.fieldText d "name" == f.path.stem with
  | some d => some d
  | none => declarations.head?

/-- Reads a file's declarations and uses off its tree. -/
def ofSource (f : SourceFile) : JavaFile :=
  let tops := f.tree.namedChildren
  let packages := tops.filter (·.type == "package_declaration")
  let imports := tops.filter (·.type == "import_declaration")
  let primary := primaryDeclaration? f (tops.filter fun c => c.isOneOf typeDeclarations)
  { stem := f.path.stem
    package := (packages.getLast?.map (declaredName f)).getD ""
    imports := imports.map (importOf f)
    typeName := (primary.map fun p => f.fieldText p "name").getD ""
    annotations := (primary.map (annotationsOf f)).getD []
    methods := (primary.map (methodsOf f)).getD []
    typeReferences := firstOccurrences ((f.tree.descendants ["type_identifier"]).map f.text) }

/-- A simple name as a member of the file's package. -/
def qualified (j : JavaFile) (simple : String) : String :=
  if j.package = "" then simple else j.package ++ "." ++ simple

/-- The name of the file's unit. -/
def unitName (j : JavaFile) : String := if j.typeName = "" then j.stem else j.typeName

/-- The known unit that an import names; a static import names a member of one. -/
def importTarget? (known : List String) (i : JavaImport) : Option String :=
  if i.isWildcard then none
  else
    let target := if i.isStatic then Text.beforeLast i.name "." else i.name
    if known.contains target then some target else none

/-- The known units that the file depends on. -/
def dependencies (j : JavaFile) (known : List String) : List String :=
  let imported := j.imports.filterMap (importTarget? known)
  let neighbours := (j.typeReferences.map j.qualified).filter known.contains
  (firstOccurrences (imported ++ neighbours)).filter (· ≠ j.qualified j.unitName)

/-- Whether the unit is reached from outside. -/
def isEntryPoint (j : JavaFile) : Bool :=
  (j.annotations ++ j.methods.flatMap (·.annotations)).any fun a =>
    entryPointAnnotations.contains a.name

/-- The kind of the unit: by its annotations, its methods' annotations, or its name. -/
def kind (j : JavaFile) : Kind :=
  match j.annotations.findSome? fun a => annotationKind? a.name with
  | some k => k
  | none =>
    if j.methods.any fun m => m.annotations.any fun a => listenerAnnotations.contains a.name then
      .listener
    else
      match nameEndings.find? fun e => e.1.any fun ending => Text.endsWith j.unitName ending with
      | some (_, k) => k
      | none => .other

/-- The path that a mapping annotation names. -/
def mappingPath? (a : JavaAnnotation) : Option String :=
  match a.arguments.get? "value" with
  | some path => some path
  | none => a.arguments.get? "path"

/-- The verb and path that one annotation gives a method. -/
def mappingOf? (a : JavaAnnotation) : Option (String × Option String) :=
  match mappingVerb? a.name with
  | some verb => some (verb, mappingPath? a)
  | none =>
    if a.name = "RequestMapping" then
      match a.arguments.get? "method" with
      | some m =>
        some (if m = "" then "GET" else Text.toUpper (Text.afterLast m "."), mappingPath? a)
      | none => some ("GET", mappingPath? a)
    else none

/-- The path of a type joined with the path of its method by one slash. -/
def joinPaths (base path : Option String) : Option String :=
  match base, path with
  | some b, some p =>
    if b = "" then path
    else if p = "" then base
    else
      some (String.ofList ((b.toList.reverse.dropWhile (· = '/')).reverse) ++ "/" ++
        String.ofList (p.toList.dropWhile (· = '/')))
  | some b, none => if b = "" then none else base
  | none, _ => path

/-- The path that the type's own mapping gives to all its methods. -/
def basePath? (j : JavaFile) : Option String :=
  ((j.annotations.filter (·.name == "RequestMapping")).getLast?).bind mappingPath?

/-- The methods as units of the graph have them. -/
def extractedMethods (j : JavaFile) : List Method :=
  j.methods.map fun m =>
    match m.annotations.findSome? mappingOf? with
    | some (verb, path) =>
      .extracted m.name m.exceptions (some verb) (joinPaths j.basePath? path) (some m.line)
    | none => .extracted m.name m.exceptions none none (some m.line)

/-- A line of a type without its type arguments. -/
def dropArguments (cs : List Char) : List Char :=
  let before := cs.takeWhile (· ≠ '<')
  let after := cs.reverse.takeWhile (· ≠ '>')
  if before.length + after.length < cs.length then before ++ after.reverse else cs

/-- The text without the occurrences of a word. The count bounds the occurrences. -/
def removeWithin (word : List Char) : Nat → List Char → List Char
  | 0, cs => cs
  | bound + 1, cs =>
    match Text.findSplit word cs with
    | some (before, after) => before ++ removeWithin word bound after
    | none => cs

/-- The name of a type without arguments, array brackets and dots of variable numbers. -/
def plainType (s : String) : String :=
  let lines := (Text.cutAt '\n' s.toList).map dropArguments
  let cs := ['\n'].intercalate lines
  let cs := removeWithin ['.', '.', '.'] cs.length cs
  let cs := removeWithin ['[', ']'] cs.length cs
  String.ofList (Text.trimChars cs)

/-- The imported types by their simple names; the last import of a name counts. -/
def importedTypes (j : JavaFile) : Dict String String :=
  Dict.ofList ((j.imports.filter fun i => !i.isStatic && !i.isWildcard).map fun i =>
    (Text.afterLast i.name ".", i.name))

/-- The known unit that a written type means: a qualified name, an imported one, or one of the
file's package. -/
def resolveType? (j : JavaFile) (known : List String) (written : String) : Option String :=
  let name := plainType written
  if name = "" then none
  else if name.toList.contains '.' && known.contains name then some name
  else
    match (j.importedTypes.get? name).filter known.contains with
    | some imported => some imported
    | none => if known.contains (j.qualified name) then some (j.qualified name) else none

/-- The known units that the parameters of each method are. -/
def parameterTargets (j : JavaFile) (known : List String) : MethodTargets :=
  j.methods.foldl (fun r m =>
    MethodTargets.record r m.name (m.parameterTypes.filterMap (j.resolveType? known))) .empty

end JavaFile

end CodeAtlas
