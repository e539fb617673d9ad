import CodeAtlas.Json.Basic

/-!
# Read JSON

Reading goes in two stages. A text is first cut into tokens; each cut leaves a shorter
rest. The tokens then drive a machine whose stack holds the arrays and objects that are
still open. A field that is written twice keeps its first place and its last value.
-/

namespace CodeAtlas.Json

/-- The parts of a written value. -/
inductive Token (τ : Type := String) where
  | openArray
  | closeArray
  | openObject
  | closeObject
  | comma
  | colon
  | text (s : τ)
  | scalar (v : Json τ)
  deriving Repr, Inhabited

/-- The white space between tokens. -/
def isSpace (c : Char) : Bool := c == ' ' || c == '\t' || c == '\n' || c == '\r'

/-- The value of a hexadecimal digit. -/
def hexValue? (c : Char) : Option Nat :=
  if '0' ≤ c && c ≤ '9' then some (c.toNat - '0'.toNat)
  else if 'a' ≤ c && c ≤ 'f' then some (c.toNat - 'a'.toNat + 10)
  else if 'A' ≤ c && c ≤ 'F' then some (c.toNat - 'A'.toNat + 10)
  else none

/-- The number of four hexadecimal digits. -/
def hexQuad? (a b c d : Char) : Option Nat := do
  let a ← hexValue? a
  let b ← hexValue? b
  let c ← hexValue? c
  let d ← hexValue? d
  return ((a * 16 + b) * 16 + c) * 16 + d

/-- The character of a plain escape. -/
def plainEscape? (c : Char) : Option Char :=
  if c = '"' || c = '\\' || c = '/' then some c
  else if c = 'n' then some '\n'
  else if c = 'r' then some '\r'
  else if c = 't' then some '\t'
  else if c = 'b' then some (Char.ofNat 8)
  else if c = 'f' then some (Char.ofNat 12)
  else none

/-- The parts of a text up to its closing quote, and what follows the quote. -/
def scanText : List Char → Option (List TextPart × List Char)
  | [] => none
  | '"' :: rest => some ([], rest)
  | '\\' :: 'u' :: a :: b :: c :: d :: rest => do
    let n ← hexQuad? a b c d
    let (parts, rest) ← scanText rest
    return (.unit n :: parts, rest)
  | '\\' :: c :: rest => do
    let e ← plainEscape? c
    let (parts, rest) ← scanText rest
    return (.char e :: parts, rest)
  | c :: rest =>
    if c.toNat < 0x20 || c = '\\' then none
    else do
      let (parts, rest) ← scanText rest
      return (.char c :: parts, rest)

section Values

variable {τ : Type}

/-- The value of a number with a sign or without. -/
def ofNumeral (negative : Bool) : Numeral → Json τ
  | .whole n => .int (if negative then -n else n)
  | .decimal code => .decimal (.ofCode negative code)

/-- A number at the start of the text. -/
def scanNumber (cs : List Char) : Option (Json τ × List Char) :=
  let (negative, rest) := takeSign cs
  (scanNumeral rest).map fun (n, rest) => (ofNumeral negative n, rest)

/-- The words that stand for values. -/
def words : List (List Char × Json τ) :=
  [("null".toList, .null), ("true".toList, .bool true), ("false".toList, .bool false),
    ("NaN".toList, .decimal .notANumber),
    ("Infinity".toList, .decimal (.ofCode false Double.infinite)),
    ("-Infinity".toList, .decimal (.ofCode true Double.infinite))]

/-- A word that stands for a value at the start of the text. -/
def scanWord (cs : List Char) : Option (Json τ × List Char) :=
  (words.find? fun w => w.1.isPrefixOf cs).map fun w => (w.2, cs.drop w.1.length)

variable [Wording τ]

/-- The first token of a text that does not begin with white space. -/
def scanToken : List Char → Option (Token τ × List Char)
  | [] => none
  | '[' :: rest => some (.openArray, rest)
  | ']' :: rest => some (.closeArray, rest)
  | '\x7b' :: rest => some (.openObject, rest)
  | '\x7d' :: rest => some (.closeObject, rest)
  | ',' :: rest => some (.comma, rest)
  | ':' :: rest => some (.colon, rest)
  | '"' :: rest => (scanText rest).map fun (parts, rest) =>
    (.text (Wording.ofParts parts), rest)
  | cs =>
    match scanWord cs with
    | some (v, rest) => some (.scalar v, rest)
    | none => (scanNumber cs).map fun (v, rest) => (.scalar v, rest)

/-- The tokens of a text; `none` if some part of it is no token. The count bounds the tokens. -/
def tokensWithin : Nat → List Char → Option (List (Token τ))
  | 0, _ => none
  | fuel + 1, cs =>
    match cs.dropWhile isSpace with
    | [] => some []
    | c :: rest => do
      let (t, rest) ← scanToken (c :: rest)
      let ts ← tokensWithin fuel rest
      return t :: ts

/-- The tokens of a text; `none` if some part of it is no token. -/
def tokens (cs : List Char) : Option (List (Token τ)) := tokensWithin (cs.length + 1) cs

end Values

/-- An array or object that is still open; items and fields so far, the last one first. -/
inductive Frame (τ : Type := String) where
  | array (items : List (Json τ))
  | object (fields : List (τ × Json τ)) (name : τ)
  deriving Inhabited

/-- What may come next, with the stack of open arrays and objects. -/
inductive Expecting (τ : Type := String) where
  | value (stack : List (Frame τ))
  | itemOrClose (stack : List (Frame τ))
  | nameOrClose (stack : List (Frame τ))
  | nextName (stack : List (Frame τ)) (fields : List (τ × Json τ))
  | colon (stack : List (Frame τ)) (fields : List (τ × Json τ)) (name : τ)
  | finished (stack : List (Frame τ)) (v : Json τ)
  deriving Inhabited

section Machine

variable {τ : Type}

/-- A token where a value may begin. -/
def Expecting.beginValue (stack : List (Frame τ)) : Token τ → Option (Expecting τ)
  | .scalar v => some (.finished stack v)
  | .text s => some (.finished stack (.string s))
  | .openArray => some (.itemOrClose stack)
  | .openObject => some (.nameOrClose stack)
  | _ => none

variable [DecidableEq τ]

/-- One token drives the machine one step, or is out of place. -/
def Expecting.step : Expecting τ → Token τ → Option (Expecting τ)
  | .value stack, t => beginValue stack t
  | .itemOrClose stack, .closeArray => some (.finished stack (.array []))
  | .itemOrClose stack, t => beginValue (.array [] :: stack) t
  | .nameOrClose stack, .closeObject => some (.finished stack (.object []))
  | .nameOrClose stack, .text s => some (.colon stack [] s)
  | .nextName stack fields, .text s => some (.colon stack fields s)
  | .colon stack fields name, .colon => some (.value (.object fields name :: stack))
  | .finished (.array items :: stack) v, .comma => some (.value (.array (v :: items) :: stack))
  | .finished (.array items :: stack) v, .closeArray =>
    some (.finished stack (.array (v :: items).reverse))
  | .finished (.object fields name :: stack) v, .comma =>
    some (.nextName stack (Dict.put name v fields))
  | .finished (.object fields name :: stack) v, .closeObject =>
    some (.finished stack (.object (Dict.put name v fields)))
  | _, _ => none

/-- The machine after all tokens. -/
def Expecting.run : Expecting τ → List (Token τ) → Option (Expecting τ)
  | s, [] => some s
  | s, t :: ts => (s.step t).bind fun s => s.run ts

variable [Wording τ]

variable (τ) in
/-- The value that a text writes, `none` for a text that writes none. -/
def readAs? (s : String) : Option (Json τ) := do
  let ts ← tokens s.toList
  match ← (Expecting.value []).run ts with
  | .finished [] v => some v
  | _ => none

variable (τ) in
/-- The value that a text writes, with its own texts in a certain form. -/
def readAs (s : String) : Outcome (Json τ) :=
  match readAs? τ s with
  | some v => .ok v
  | none => .error .malformedDocument

end Machine

/-- The value that a text writes. -/
def read (s : String) : Outcome Json := readAs String s

end CodeAtlas.Json
