import CodeAtlas.Graph.Kind
import CodeAtlas.Json.Basic

/-!
# Methods of a unit

A method as found in a source file, with the texts that enrichment adds later. Methods are
written as JSON objects in which absent texts are left out; lists are always written.
-/

namespace CodeAtlas

/-- A method of a unit. -/
structure Method (ν : Type := String) (η : Type := Int) where
  name : ν
  description : Option ν
  businessLogic : List ν
  exceptions : List ν
  httpMethod : Option ν
  httpPath : Option ν
  lineNumber : Option η
  deriving Repr, DecidableEq, Inhabited

/-- What enrichment says about one method. -/
structure MethodText (ν : Type := String) where
  description : Option ν
  businessLogic : List ν
  deriving Repr, DecidableEq, Inhabited

namespace Method

/-- A method as extraction finds it, without enriched texts. -/
def extracted (name : String) (exceptions : List String)
    (httpMethod httpPath : Option String) (lineNumber : Option Int) : Method :=
  ⟨name, none, [], exceptions, httpMethod, httpPath, lineNumber⟩

/-- The verb and path that the method answers, without white space at the end. -/
def endpoint? (m : Method) : Option String :=
  m.httpMethod.map fun verb => Text.trimEnd (verb ++ " " ++ m.httpPath.getD "")

variable {τ ν η : Type}

/-- Whether the method answers HTTP requests. -/
def isEndpoint (m : Method ν η) : Bool := m.httpMethod.isSome

/-- The method with enriched texts in place of its own. -/
def withText (m : Method ν η) (t : MethodText ν) : Method ν η :=
  { m with description := t.description, businessLogic := t.businessLogic }

end Method

/-! ## Methods in documents -/

/-- A type whose members stand for values of documents. -/
class Coded (α : Type) (τ : outParam Type) where
  toJson : α → Json τ
  /-- The member that a value stands for. -/
  ofJson : Json τ → Outcome α

instance : Coded String String := ⟨.string, Json.asString⟩

instance : Coded Int String := ⟨.int, Json.asInt⟩

namespace Coded

variable {α τ : Type} [Wording τ] [Coded α τ]

/-- What may be missing or null. -/
def ofOptional : Option (Json τ) → Outcome (Option α)
  | none | some .null => .ok none
  | some v => (Coded.ofJson v).map some

/-- The members of a list; a missing or empty value lists nothing. -/
def ofListed : Option (Json τ) → Outcome (List α)
  | some v => if v.isTruthy then do (← v.elements).mapM Coded.ofJson else .ok []
  | none => .ok []

end Coded

namespace Method

variable {τ ν η : Type} [Wording τ]

/-- An optional field of a written record. -/
def optionalField (name : String) (v : Option (Json τ)) : List (τ × Json τ) :=
  match v with
  | some v => [(Wording.ofString name, v)]
  | none => []

variable [Coded ν τ] [Coded η τ]

/-- The written method. -/
def toJson (m : Method ν η) : Json τ :=
  .object <|
    [(Wording.ofString "methodName", Coded.toJson m.name),
      (Wording.ofString "businessLogic", .array (m.businessLogic.map Coded.toJson)),
      (Wording.ofString "exceptions", .array (m.exceptions.map Coded.toJson))] ++
    optionalField "description" (m.description.map Coded.toJson) ++
    optionalField "httpMethod" (m.httpMethod.map Coded.toJson) ++
    optionalField "httpPath" (m.httpPath.map Coded.toJson) ++
    optionalField "lineNumber" (m.lineNumber.map Coded.toJson)

/-- The method that a written record describes; only its name must be there. -/
def ofJson [DecidableEq τ] (v : Json τ) : Outcome (Method ν η) := do
  let name ← Coded.ofJson (← v.required "methodName")
  let description ← Coded.ofOptional (← v.optional "description")
  let businessLogic ← Coded.ofListed (← v.optional "businessLogic")
  let exceptions ← Coded.ofListed (← v.optional "exceptions")
  let httpMethod ← Coded.ofOptional (← v.optional "httpMethod")
  let httpPath ← Coded.ofOptional (← v.optional "httpPath")
  let lineNumber ← Coded.ofOptional (← v.optional "lineNumber")
  return ⟨name, description, businessLogic, exceptions, httpMethod, httpPath, lineNumber⟩

end Method

end CodeAtlas
