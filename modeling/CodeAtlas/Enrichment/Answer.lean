import CodeAtlas.Graph.Document
import CodeAtlas.Text.Pieces

/-!
# Enrichment answers

What an enricher says about one unit: a description, a better kind if the extracted one is
wrong, and texts for its methods. A method may be named with its parameters; the text before
the parenthesis is its name. Of several texts for one name the last counts.
-/

namespace CodeAtlas

/-- An enricher's text for one method. -/
structure MethodAnswer where
  methodName : String
  description : Option String
  steps : List String
  deriving Repr, DecidableEq, Inhabited

/-- An enricher's answer for one unit. -/
structure Answer where
  description : Option String
  kindCorrection : Option String
  methods : List MethodAnswer
  deriving Repr, DecidableEq, Inhabited

/-- A method's name without the parameters that may follow it. -/
def plainMethodName (name : String) : String := Text.trim (Text.beforeFirst name "(")

namespace Answer

/-- The corrected kind; a blank correction and the word null keep the extracted kind. -/
def correctedKind? (a : Answer) : Option Kind :=
  let value := Text.trim (a.kindCorrection.getD "")
  if value.isEmpty || Text.toLower value = "null" then none else some (Kind.ofText value)

/-- The texts by method name. -/
def methodTexts (a : Answer) : Dict String MethodText :=
  Dict.ofList (a.methods.map fun m => (plainMethodName m.methodName, ⟨m.description, m.steps⟩))

/-- Reads the text for one method. -/
def readMethod (v : Json) : Outcome MethodAnswer := do
  let name ← (← v.required "methodName").asString
  let description ← Json.asString? (← v.optional "description")
  let steps ← Json.asStrings (← v.optional "logicSteps")
  return ⟨name, description, steps⟩

/-- Reads an answer. -/
def ofJson (v : Json) : Outcome Answer := do
  let description ← Json.asString? (← v.optional "description")
  let correction ← Json.asString? (← v.optional "kindCorrection")
  let methods ← match ← v.optional "methods" with
    | some methods => methods.elements
    | none => .ok []
  return ⟨description, correction, ← methods.mapM readMethod⟩

/-- The written text for one method. -/
def textJson (name : String) (description : Option String) (steps : List String) : Json :=
  .array [.string name, Json.ofOption .string description, Json.ofStrings steps]

/-- An answer as it is understood: with the kind that it corrects to and the text that each
method gets. -/
def summary (a : Answer) : Json :=
  .object [("description", Json.ofOption .string a.description),
    ("kindCorrection", Json.ofOption .string a.kindCorrection),
    ("correctedKind", Json.ofOption (fun k : Kind => .string k.name) a.correctedKind?),
    ("methods", .array (a.methods.map fun m => textJson m.methodName m.description m.steps)),
    ("byName", .array (a.methodTexts.toList.map fun e =>
      textJson e.1 e.2.description e.2.businessLogic))]

end Answer

end CodeAtlas
