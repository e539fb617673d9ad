import CodeAtlas.Graph.Method

/-!
# Analyses of script modules

What an analyzer finds in one module: its kind, whether it is an entry point, its methods with
the names of their parameters' types, and its imports. Analyzers that run as programs of their
own answer with the written form.
-/

namespace CodeAtlas

/-- A method that an analyzer finds. -/
structure ModuleMethod where
  name : String
  line : Option Int
  httpMethod : Option String
  httpPath : Option String
  parameterTypes : List String
  deriving Repr, DecidableEq, Inhabited

/-- An import: the name in the imported module, the name here, and where it comes from. -/
structure ModuleImport where
  importedName : String
  localName : String
  source : String
  deriving Repr, DecidableEq, Inhabited

/-- What an analyzer finds in one module. -/
structure ModuleAnalysis where
  kind : Kind
  isEntryPoint : Bool
  methods : List ModuleMethod
  imports : List ModuleImport
  deriving Repr, DecidableEq, Inhabited

namespace ModuleAnalysis

/-- The analysis of a module in which nothing is found. -/
def empty : ModuleAnalysis := ⟨.other, false, [], []⟩

/-- The written method. -/
def methodJson (m : ModuleMethod) : Json :=
  .object [("name", .string m.name), ("lineNumber", Json.ofOption .int m.line),
    ("httpMethod", Json.ofOption .string m.httpMethod),
    ("httpPath", Json.ofOption .string m.httpPath),
    ("parameterTypes", Json.ofStrings m.parameterTypes)]

/-- The written import. -/
def importJson (i : ModuleImport) : Json :=
  .object [("importedName", .string i.importedName), ("localName", .string i.localName),
    ("source", .string i.source)]

/-- The written analysis. -/
def toJson (a : ModuleAnalysis) : Json :=
  .object [("classType", .string a.kind.name), ("entryPoint", .bool a.isEntryPoint),
    ("methods", .array (a.methods.map methodJson)), ("imports", .array (a.imports.map importJson))]

/-- The kind that a value names; what is empty names none. -/
def readKind (v : Option Json) : Outcome Kind :=
  match v with
  | some (.string s) => .ok (Kind.ofText s)
  | some v => if v.isTruthy then .error (.notARecord v.sortName "strip") else .ok .other
  | none => .ok .other

/-- Reads a method, of which only the name must be there. -/
def readMethod (v : Json) : Outcome ModuleMethod := do
  let name ← (← v.required "name").asString
  return ⟨name, ← Json.asInt? (← v.optional "lineNumber"),
    ← Json.asString? (← v.optional "httpMethod"), ← Json.asString? (← v.optional "httpPath"),
    ← Json.asStrings (← v.optional "parameterTypes")⟩

/-- A text that may be missing. -/
def textOrEmpty (v : Option Json) : Outcome String :=
  match v with
  | some v => v.asString
  | none => .ok ""

/-- Reads an import. -/
def readImport (v : Json) : Outcome ModuleImport := do
  return ⟨← textOrEmpty (← v.optional "importedName"), ← textOrEmpty (← v.optional "localName"),
    ← textOrEmpty (← v.optional "source")⟩

/-- The items of a list that may be missing. -/
def itemsOf (v : Option Json) : Outcome (List Json) :=
  match v with
  | some v => v.elements
  | none => .ok []

/-- Reads an analysis. -/
def ofJson (v : Json) : Outcome ModuleAnalysis := do
  let kind ← readKind (← v.optional "classType")
  let isEntryPoint := ((← v.optional "entryPoint").map (·.isTruthy)).getD false
  let methods ← (← itemsOf (← v.optional "methods")).mapM readMethod
  let imports ← (← itemsOf (← v.optional "imports")).mapM readImport
  return ⟨kind, isEntryPoint, methods, imports⟩

end ModuleAnalysis

end CodeAtlas
