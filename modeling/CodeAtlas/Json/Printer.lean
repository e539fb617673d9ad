import CodeAtlas.Json.Basic

/-!
# Written JSON

Two layouts of a value: on one line, and with two blanks of indentation per level. Both
use ASCII alone; other characters are written as escapes of their UTF-16 units.
-/

namespace CodeAtlas.Json

variable {τ : Type} [Wording τ]

/-- A written text with its quotes. -/
def writtenText (s : τ) : List Char := '"' :: Wording.escaped s ++ ['"']

/-- A written value that has no parts. -/
def writtenScalar : Json τ → List Char
  | .null => "null".toList
  | .bool true => "true".toList
  | .bool false => "false".toList
  | .int n => (toString n).toList
  | .decimal x => x.written
  | .string s => writtenText s
  | .array _ => ['[', ']']
  | .object _ => ['\x7b', '\x7d']

/-- The start of a line at a level of nesting. -/
def newline (level : Nat) : List Char := '\n' :: List.replicate (2 * level) ' '

mutual
/-- A value on one line. -/
def compactChars : Json τ → List Char
  | .array items => '[' :: compactItems items ++ [']']
  | .object fields => '\x7b' :: compactFields fields ++ ['\x7d']
  | v => writtenScalar v

/-- Items between commas. -/
def compactItems : List (Json τ) → List Char
  | [] => []
  | [v] => compactChars v
  | v :: rest => compactChars v ++ ',' :: ' ' :: compactItems rest

/-- Fields between commas. -/
def compactFields : List (τ × Json τ) → List Char
  | [] => []
  | [(k, v)] => writtenText k ++ ':' :: ' ' :: compactChars v
  | (k, v) :: rest =>
    writtenText k ++ ':' :: ' ' :: compactChars v ++ ',' :: ' ' :: compactFields rest
end

mutual
/-- A value over several lines; `level` is the nesting of the line it begins on. -/
def prettyChars (level : Nat) : Json τ → List Char
  | .array [] => ['[', ']']
  | .array (v :: rest) =>
    '[' :: newline (level + 1) ++ prettyItems level (v :: rest) ++ newline level ++ [']']
  | .object [] => ['\x7b', '\x7d']
  | .object (f :: rest) =>
    '\x7b' :: newline (level + 1) ++ prettyFields level (f :: rest) ++ newline level ++ ['\x7d']
  | v => writtenScalar v

/-- Items on lines of their own. -/
def prettyItems (level : Nat) : List (Json τ) → List Char
  | [] => []
  | [v] => prettyChars (level + 1) v
  | v :: rest => prettyChars (level + 1) v ++ ',' :: newline (level + 1) ++ prettyItems level rest

/-- Fields on lines of their own. -/
def prettyFields (level : Nat) : List (τ × Json τ) → List Char
  | [] => []
  | [(k, v)] => writtenText k ++ ':' :: ' ' :: prettyChars (level + 1) v
  | (k, v) :: rest =>
    writtenText k ++ ':' :: ' ' :: prettyChars (level + 1) v ++ ',' :: newline (level + 1) ++
      prettyFields level rest
end

/-- The value on one line. -/
def compact (v : Json τ) : String := String.ofList v.compactChars

/-- The value with two blanks of indentation per level. -/
def pretty (v : Json τ) : String := String.ofList (v.prettyChars 0)

/-!
## Values shown inside texts

How a value that stands where a text is wanted is turned into one: a text stays as it is,
other values are shown with their parts, and texts inside them are quoted.
-/

mutual
/-- A value inside another one. -/
def shownInside : Json τ → String
  | .null => "None"
  | .bool true => "True"
  | .bool false => "False"
  | .int n => toString n
  | .decimal x => x.shown
  | .string s => Wording.quoted s
  | .array items => "[" ++ shownItems items ++ "]"
  | .object fields => "\x7b" ++ shownFields fields ++ "\x7d"

/-- Items between commas. -/
def shownItems : List (Json τ) → String
  | [] => ""
  | [v] => shownInside v
  | v :: rest => shownInside v ++ ", " ++ shownItems rest

/-- Fields between commas. -/
def shownFields : List (τ × Json τ) → String
  | [] => ""
  | [(k, v)] => Wording.quoted k ++ ": " ++ shownInside v
  | (k, v) :: rest => Wording.quoted k ++ ": " ++ shownInside v ++ ", " ++ shownFields rest
end

/-- The text of a value: a text itself, or what shows the value. -/
def shown : Json τ → τ
  | .string s => s
  | v => Wording.ofString (shownInside v)

end CodeAtlas.Json
