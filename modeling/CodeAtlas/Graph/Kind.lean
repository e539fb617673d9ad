import CodeAtlas.Text.CharSet
import CodeAtlas.Text.Case

/-!
# Kinds of units

The coarse architectural role of a unit of code. A kind has a name, which documents use. Reading a
name ignores case and surrounding white space; what is no name reads as `other`.
-/

namespace CodeAtlas

/-- The architectural role of a unit of code. -/
inductive Kind where
  | controller
  | service
  | repository
  | entity
  | dto
  | configuration
  | listener
  | utility
  | exception
  | other
  deriving Repr, DecidableEq, Inhabited

namespace Kind

/-- Every kind. -/
def all : List Kind :=
  [.controller, .service, .repository, .entity, .dto, .configuration, .listener, .utility,
    .exception, .other]

/-- The name under which documents write a kind. -/
def name : Kind → String
  | .controller => "CONTROLLER"
  | .service => "SERVICE"
  | .repository => "REPOSITORY"
  | .entity => "ENTITY"
  | .dto => "DTO"
  | .configuration => "CONFIGURATION"
  | .listener => "LISTENER"
  | .utility => "UTILITY"
  | .exception => "EXCEPTION"
  | .other => "OTHER"

/-- Whether units of the kind answer requests from outside. -/
def isRequestHandler : Kind → Bool
  | .controller | .listener => true
  | _ => false

/-- Whether units of the kind hold business rules. -/
def containsBusinessLogic : Kind → Bool
  | .service | .entity => true
  | _ => false

/-- The kind with exactly this name. -/
def ofName? (s : String) : Option Kind := all.find? (·.name == s)

/-- The kind that a text names, ignoring case and surrounding white space. -/
def ofText (s : String) : Kind := (ofName? (Text.toUpper (Text.trim s))).getD .other

/-- The kind that an optional text names. -/
def ofText? : Option String → Kind
  | some s => ofText s
  | none => .other

/-- Reading a kind's name gives the kind back. -/
theorem ofName?_name (k : Kind) : ofName? k.name = some k := by
  cases k <;> decide

end Kind

end CodeAtlas
