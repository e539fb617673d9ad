import CodeAtlas.Dict
import CodeAtlas.Failure
import CodeAtlas.Json.Number
import CodeAtlas.Json.Wording

/-!
# JSON values

Documents as values: objects are lists of fields in the order in which they were written. Whole
numbers are exact, other numbers have double precision. The access functions say which failure
arises when a value has not the asked kind.
-/

namespace CodeAtlas

/-- A JSON value, with its texts in one of the forms in which documents keep them. -/
inductive Json (τ : Type := String) where
  | null
  | bool (b : Bool)
  | int (n : Int)
  /-- A number with a fraction or an exponent. -/
  | decimal (x : Double)
  | string (s : τ)
  | array (items : List (Json τ))
  | object (fields : List (τ × Json τ))
  deriving Repr, Inhabited

namespace Json

section Equality

variable {τ : Type} [DecidableEq τ]

mutual
/-- Whether two values are the same, fields in the same order. -/
def same : Json τ → Json τ → Bool
  | .null, .null => true
  | .bool a, .bool b => a = b
  | .int a, .int b => a = b
  | .decimal a, .decimal b => a = b
  | .string a, .string b => a = b
  | .array a, .array b => sameItems a b
  | .object a, .object b => sameFields a b
  | _, _ => false

/-- Whether two lists hold the same values. -/
def sameItems : List (Json τ) → List (Json τ) → Bool
  | [], [] => true
  | a :: as, b :: bs => same a b && sameItems as bs
  | _, _ => false

/-- Whether two lists hold the same fields. -/
def sameFields : List (τ × Json τ) → List (τ × Json τ) → Bool
  | [], [] => true
  | (k, a) :: as, (l, b) :: bs => k = l && same a b && sameFields as bs
  | _, _ => false
end

mutual
theorem same_iff (v w : Json τ) : same v w = true ↔ v = w := by
  cases v with
  | array items => cases w <;> simp [same, sameItems_iff items]
  | object fields => cases w <;> simp [same, sameFields_iff fields]
  | _ => cases w <;> simp [same]

theorem sameItems_iff (vs ws : List (Json τ)) : sameItems vs ws = true ↔ vs = ws := by
  cases vs with
  | nil => cases ws <;> simp [sameItems]
  | cons a as => cases ws <;> simp [sameItems, same_iff a, sameItems_iff as]

theorem sameFields_iff (fs gs : List (τ × Json τ)) : sameFields fs gs = true ↔ fs = gs := by
  cases fs with
  | nil => cases gs <;> simp [sameFields]
  | cons f rest =>
    cases gs with
    | nil => simp [sameFields]
    | cons g gs => simp [sameFields, Prod.ext_iff, same_iff f.2, sameFields_iff rest]
end

instance : DecidableEq (Json τ) := fun v w => decidable_of_iff _ (same_iff v w)

end Equality

/-! ## Written values -/

/-- A value that may be absent; absence is written as null. -/
def ofOption {α : Type} (f : α → Json) : Option α → Json
  | some a => f a
  | none => .null

/-- A list of texts. -/
def ofStrings (parts : List String) : Json := .array (parts.map .string)

/-- A natural number. -/
def ofNat (n : Nat) : Json := .int n

/-! ## Kinds of values -/

section Kinds

variable {τ : Type} [Wording τ]

/-- Everything counts as true except null, false, zero and what is empty. -/
def isTruthy : Json τ → Bool
  | .null => false
  | .bool b => b
  | .int n => n != 0
  | .decimal x => x.whole? ≠ some 0
  | .string s => !Wording.isEmpty s
  | .array items => !items.isEmpty
  | .object fields => !fields.isEmpty

/-- Whether the value is null. -/
def isNull : Json τ → Bool
  | .null => true
  | _ => false

/-- The name of a value's sort. -/
def sortName : Json τ → String
  | .null => "NoneType"
  | .bool _ => "bool"
  | .int _ => "int"
  | .decimal _ => "float"
  | .string _ => "str"
  | .array _ => "list"
  | .object _ => "dict"

/-- What a value lists: an array's items, an object's names or a text's characters. -/
def elements : Json τ → Outcome (List (Json τ))
  | .array items => .ok items
  | .object fields => .ok (fields.map fun f => .string f.1)
  | .string s => .ok ((Wording.characters s).map .string)
  | v => .error (.notIterable v.sortName)

/-- The fields of a value that must be an object. -/
def asFields : Json τ → Outcome (List (τ × Json τ))
  | .object fields => .ok fields
  | v => .error (.notARecord v.sortName "items")

end Kinds

/-! ## Fields -/

section Fields

variable {τ : Type} [DecidableEq τ] [Wording τ]

/-- A field of an object that need not be there. -/
def field? (v : Json τ) (name : String) : Option (Json τ) :=
  match v with
  | .object fields => Dict.lookup (Wording.ofString name) fields
  | _ => none

/-- A field of a value that must be an object; the field itself may be missing. -/
def optional (v : Json τ) (name : String) : Outcome (Option (Json τ)) :=
  match v with
  | .object fields => .ok (Dict.lookup (Wording.ofString name) fields)
  | v => .error (.notARecord v.sortName "get")

/-- A field that must be there. -/
def required (v : Json τ) (name : String) : Outcome (Json τ) :=
  match v with
  | .object fields =>
    match Dict.lookup (Wording.ofString name) fields with
    | some value => .ok value
    | none => .error (.missingField name)
  | _ => .error .wrongType

end Fields

/-! ## Values of a declared type -/

/-- A name and a value, as a list of two. -/
def asPair (v : Json) : Outcome (String × Json) := do
  match ← v.elements with
  | [.string k, value] => return (k, value)
  | [_, _] => .error .wrongType
  | _ => .error (.invalidValue none)

/-- The entries of a value that is an object or a list of pairs. -/
def asPairs : Json → Outcome (Dict String Json)
  | .object fields => .ok ⟨fields⟩
  | v => do return Dict.ofList (← (← v.elements).mapM asPair)

/-- The text of a string value. -/
def asString : Json → Outcome String
  | .string s => .ok s
  | _ => .error .wrongType

/-- A whole number. -/
def asInt : Json → Outcome Int
  | .int n => .ok n
  | _ => .error .wrongType

/-- A text that may be absent or null. -/
def asString? : Option Json → Outcome (Option String)
  | none | some .null => .ok none
  | some v => (v.asString).map some

/-- A whole number that may be absent or null. -/
def asInt? : Option Json → Outcome (Option Int)
  | none | some .null => .ok none
  | some v => (v.asInt).map some

/-- A list of texts; an absent or empty value lists nothing. -/
def asStrings (v : Option Json) : Outcome (List String) :=
  match v with
  | some v => if v.isTruthy then do (← v.elements).mapM asString else .ok []
  | none => .ok []

/-!
## Values compared

Which values count as equal, however they are written: the truth values and one and zero, whole
numbers with and without a fraction, and objects whose fields stand in another order. What is no
number is not even equal to itself, but it is where values with parts are compared part by part.
-/

section Comparing

variable {τ : Type} [Wording τ]

mutual
/-- One value of all those that count as equal. -/
def likeness : Json τ → Json τ
  | .null => .null
  | .bool b => .int (if b then 1 else 0)
  | .int n => .int n
  | .decimal x =>
    match x.whole? with
    | some n => .int n
    | none => .decimal x
  | .string s => .string s
  | .array items => .array (likenessItems items)
  | .object fields =>
    .object ((likenessFields fields).mergeSort fun f g => Wording.precedes f.1 g.1)

def likenessItems : List (Json τ) → List (Json τ)
  | [] => []
  | v :: rest => likeness v :: likenessItems rest

def likenessFields : List (τ × Json τ) → List (τ × Json τ)
  | [] => []
  | (k, v) :: rest => (k, likeness v) :: likenessFields rest
end

/-- Whether a comparison says that two values are equal. -/
def alike [DecidableEq τ] (v w : Json τ) : Bool :=
  v.likeness = w.likeness && v.likeness ≠ .decimal .notANumber

end Comparing

end Json

end CodeAtlas
