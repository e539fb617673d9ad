import CodeAtlas.Text.Units

/-!
# Texts inside documents

The names and texts of a document may be kept in different forms. Here stands what reading,
writing and showing a document ask of such a form. Ordinary texts are lists of characters; they
have no halves of surrogate pairs, so one that a document writes as an escape is read as the
replacement character. Texts by their units keep every half apart.
-/

namespace CodeAtlas

namespace Json

/-! ## Written texts -/

/-- The escape of one UTF-16 unit. -/
def unitEscape (n : Nat) : List Char := '\\' :: 'u' :: Text.hexPadded 4 n

/-- A character inside a written text. -/
def writtenChar (c : Char) : List Char :=
  if c = '"' then ['\\', '"']
  else if c = '\\' then ['\\', '\\']
  else if c = '\n' then ['\\', 'n']
  else if c = '\r' then ['\\', 'r']
  else if c = '\t' then ['\\', 't']
  else if c.toNat = 8 then ['\\', 'b']
  else if c.toNat = 12 then ['\\', 'f']
  else if 0x20 ≤ c.toNat && c.toNat < 0x7f then [c]
  else if c.toNat < 0x10000 then unitEscape c.toNat
  else
    let rest := c.toNat - 0x10000
    unitEscape (0xd800 + rest / 0x400) ++ unitEscape (0xdc00 + rest % 0x400)

/-- A unit inside a written text. -/
def writtenUnit (u : UInt16) : List Char :=
  if u < 0x7f then writtenChar (Char.ofNat u.toNat) else unitEscape u.toNat

/-! ## Read texts -/

/-- A part of a written text: a character or a UTF-16 unit given by number. -/
inductive TextPart where
  | char (c : Char)
  | unit (n : Nat)
  deriving Repr

/-- The characters of a text: two units of a surrogate pair make one character. A half that
stands alone is no character; the replacement character stands for it. -/
def joinParts : List TextPart → List Char
  | [] => []
  | [.unit n] => [if 0xd800 ≤ n && n < 0xe000 then Char.ofNat 0xfffd else Char.ofNat n]
  | .char c :: rest => c :: joinParts rest
  | .unit high :: .unit low :: rest =>
    if 0xd800 ≤ high && high < 0xdc00 && 0xdc00 ≤ low && low < 0xe000 then
      Char.ofNat (0x10000 + (high - 0xd800) * 0x400 + (low - 0xdc00)) :: joinParts rest
    else
      (if 0xd800 ≤ high && high < 0xe000 then Char.ofNat 0xfffd else Char.ofNat high) ::
        joinParts (.unit low :: rest)
  | .unit n :: rest =>
    (if 0xd800 ≤ n && n < 0xe000 then Char.ofNat 0xfffd else Char.ofNat n) :: joinParts rest

/-- The units of a part. -/
def TextPart.units : TextPart → List UInt16
  | .char c => UnitText.unitsOf c
  | .unit n => [UInt16.ofNat n]

end Json

/-- A form in which documents keep their texts. -/
class Wording (τ : Type) where
  /-- The form of an ordinary text. -/
  ofString : String → τ
  /-- The ordinary text of which it is the form, if there is one. -/
  toString? : τ → Option String
  /-- Whether a text stands before another one or is the same, in some order of all texts. -/
  precedes : τ → τ → Bool
  isEmpty : τ → Bool
  /-- The characters, each as a text. -/
  characters : τ → List τ
  /-- The text between quotes, as it is shown inside other texts. -/
  quoted : τ → String
  /-- What documents write for the text between its quotes. -/
  escaped : τ → List Char
  /-- The text that parts of a document make. -/
  ofParts : List Json.TextPart → τ

instance : Wording String where
  ofString s := s
  toString? s := some s
  precedes s t := s ≤ t
  isEmpty s := s.isEmpty
  characters s := s.toList.map String.singleton
  quoted := Text.quoted
  escaped s := s.toList.flatMap Json.writtenChar
  ofParts parts := String.ofList (Json.joinParts parts)

/-- Ordinary texts are their own form. -/
@[simp] theorem Wording.ofString_eq (s : String) : (Wording.ofString s : String) = s := rfl

instance : Wording UnitText where
  ofString := UnitText.ofString
  toString? := UnitText.toString?
  precedes s t := s.units ≤ t.units
  isEmpty t := t.units.isEmpty
  characters t := t.symbols.map UnitText.Symbol.text
  quoted := UnitText.quoted
  escaped t := t.units.flatMap Json.writtenUnit
  ofParts parts := ⟨parts.flatMap Json.TextPart.units⟩

end CodeAtlas
