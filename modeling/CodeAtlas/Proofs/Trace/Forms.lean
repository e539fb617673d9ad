import CodeAtlas.Proofs.Text.Runs
import CodeAtlas.Trace.Frame

/-!
# The written forms of a frame

Each form is given by its fields, which are texts of the characters that the form allows there. The
fields determine a line, or two lines for a call, and the frame that the line is about.
-/

namespace CodeAtlas.Frame

open Text (Run Piece Stops isBlank isDigit isWord)

/-- Characters other than white space. -/
def isSolid (c : Char) : Bool := !isBlank c

/-- Characters of a file between parentheses. -/
def isFileChar (c : Char) : Bool := c ≠ ':' && c ≠ ')'

/-- Characters of a path between quotation marks. -/
def isQuotedChar (c : Char) : Bool := c ≠ '"'

/-- A text that is not empty, with what stands before and after its last separator. -/
structure Qualified (sep : Char) (p : Char → Bool) where
  qualifier : Option (Run p)
  last : Run fun c => p c && c ≠ sep
  ne_nil : qualifier = none → last.text ≠ []

def Qualified.text {sep : Char} {p : Char → Bool} (q : Qualified sep p) : List Char :=
  (q.qualifier.elim [] fun run => run.text ++ [sep]) ++ q.last.text

/-- The number that digits write. -/
def numberOf (number : Piece isDigit) : Int := Text.natOfDigits number.text

/-- The digits of a number. -/
def decimal (n : Nat) : Piece isDigit where
  text := Nat.toDigits 10 n
  all _ := Text.isDigit_of_mem_toDigits
  ne_nil := Nat.toDigits_ne_nil

theorem numberOf_decimal (n : Nat) : numberOf (decimal n) = n :=
  congrArg Nat.cast (Text.natOfDigits_toDigits n)

/-! ## A class and a method -/

/-- The fields of `at pkg.Cls.method(File:12)`. -/
structure ClassForm where
  indent : Run isBlank
  gap : Piece isBlank
  owner : Piece isOwnerChar
  member : Piece isMemberChar
  file : Run isFileChar
  number : Option (Piece isDigit)
  rest : List Char

namespace ClassForm

/-- What stands behind the opening parenthesis. -/
def place (f : ClassForm) : List Char :=
  f.file.text ++ (f.number.elim [] fun number => ':' :: number.text) ++ ')' :: f.rest

def line (f : ClassForm) : List Char :=
  f.indent.text ++ "at".toList ++ f.gap.text ++ f.owner.text ++ '.' :: f.member.text ++
    '(' :: f.place

/-- The class ends at its first dollar sign. -/
def frame (f : ClassForm) : Frame where
  className := String.ofList (f.owner.text.takeWhile (· ≠ '$'))
  methodName := String.ofList f.member.text
  lineNumber := f.number.map numberOf
  filePath := if f.file.text.isEmpty then none else some (String.ofList f.file.text)

end ClassForm

/-! ## A quoted path and a line -/

/-- The fields of `File "x.py", line 3, in f`. -/
structure FileForm where
  indent : Run isBlank
  path : Piece isQuotedChar
  number : Piece isDigit
  name : Piece isSolid
  rest : List Char
  stops : Stops isSolid rest

namespace FileForm

def line (f : FileForm) : List Char :=
  f.indent.text ++ "File \"".toList ++ f.path.text ++ "\", line ".toList ++ f.number.text ++
    ", in ".toList ++ f.name.text ++ f.rest

def frame (f : FileForm) : Frame where
  className := ""
  methodName := String.ofList f.name.text
  lineNumber := some (numberOf f.number)
  filePath := some (String.ofList f.path.text)

end FileForm

/-! ## A line and a column -/

/-- The fields of `path:line:col`, with a closing parenthesis perhaps and white space behind. -/
structure ColumnPlace where
  path : Piece isPathChar
  number : Piece isDigit
  column : Piece isDigit
  closed : Bool
  trailing : Run isBlank

namespace ColumnPlace

/-- The place without the parenthesis. -/
def bare (p : ColumnPlace) : List Char :=
  p.path.text ++ ':' :: p.number.text ++ ':' :: p.column.text

/-- The place without the white space behind it. -/
def word (p : ColumnPlace) : List Char := p.bare ++ if p.closed then [')'] else []

def text (p : ColumnPlace) : List Char := p.word ++ p.trailing.text

end ColumnPlace

/-- The fields of `Owner.fn (`, with the white space behind the name. -/
structure Caller where
  name : Qualified '.' isSolid
  gap : Piece isBlank

def Caller.text (c : Caller) : List Char := c.name.text ++ c.gap.text ++ ['(']

/-- The fields of `at [async ]Owner.fn (path:line:col)` or `at path:line:col`. A function that is
awaited has white space behind the word for it. -/
structure ColumnForm where
  indent : Run isBlank
  gap : Piece isBlank
  caller : Option (Option (Piece isBlank) × Caller)
  place : ColumnPlace

namespace ColumnForm

/-- What stands in front of the place. -/
def prelude (f : ColumnForm) : List Char :=
  f.caller.elim [] fun call =>
    (call.1.elim [] fun gap => "async".toList ++ gap.text) ++ call.2.text

def line (f : ColumnForm) : List Char :=
  f.indent.text ++ "at".toList ++ f.gap.text ++ f.prelude ++ f.place.text

/-- The class is what stands before the last dot of the name. -/
def frame (f : ColumnForm) : Frame where
  className := String.ofList
    ((f.caller.bind fun caller => caller.2.name.qualifier).elim [] (·.text))
  methodName := String.ofList (f.caller.elim [] fun caller => caller.2.name.last.text)
  lineNumber := some (numberOf f.place.number)
  filePath := some (String.ofList f.place.path.text)

end ColumnForm

/-! ## A call and its place -/

/-- The fields of `(*T).`, with or without the star. -/
structure Receiver where
  pointer : Bool
  type : Piece isWord

def Receiver.text (r : Receiver) : List Char :=
  '(' :: (if r.pointer then ['*'] else []) ++ r.type.text ++ ").".toList

/-- The fields of `(*T).M(...)` or `F(...)`, with white space behind perhaps. -/
structure Member where
  receiver : Option Receiver
  name : Piece isWord
  arguments : List Char
  trailing : Run isBlank

def Member.text (m : Member) : List Char :=
  m.receiver.elim [] Receiver.text ++ m.name.text ++ '(' :: m.arguments ++ ')' :: m.trailing.text

/-- The fields of `pkg.(*T).M(...)` or `pkg.F(...)`. -/
structure CallForm where
  package : Qualified '/' isPackageChar
  member : Member

def CallForm.line (f : CallForm) : List Char := f.package.text ++ '.' :: f.member.text

/-- The fields of an indented `path.go:line`, the path without its ending. -/
structure PlaceForm where
  indent : Piece isBlank
  stem : Piece isSolid
  number : Piece isDigit
  rest : List Char
  stops : Stops isSolid rest

def PlaceForm.line (f : PlaceForm) : List Char :=
  f.indent.text ++ f.stem.text ++ ".go:".toList ++ f.number.text ++ f.rest

/-- The frame of a call. The class is the receiver or the last segment of the package. -/
def CallForm.frame (f : CallForm) (place : PlaceForm) : Frame where
  className := String.ofList (f.member.receiver.elim f.package.last.text (·.type.text))
  methodName := String.ofList f.member.name.text
  lineNumber := some (numberOf place.number)
  filePath := some (String.ofList (place.stem.text ++ ".go".toList))

/-! ## Lines of a form -/

def IsClassLine (line : List Char) : Prop := ∃ f : ClassForm, f.line = line

def IsFileLine (line : List Char) : Prop := ∃ f : FileForm, f.line = line

def IsColumnLine (line : List Char) : Prop := ∃ f : ColumnForm, f.line = line

def IsCallLine (line : List Char) : Prop := ∃ f : CallForm, f.line = line

/-- Whether a line begins as a place of a call does. What follows the number is not looked at, so
`path.go:3:7` counts. -/
def IsPlaceLine (line : List Char) : Prop :=
  ∃ (indent : Piece isBlank) (stem : Piece isSolid) (number : Piece isDigit) (rest : List Char),
    line = indent.text ++ stem.text ++ ".go:".toList ++ number.text ++ rest

end CodeAtlas.Frame
