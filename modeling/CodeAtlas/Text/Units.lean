import CodeAtlas.Text.Quoted

/-!
# Texts by their units

A text as the list of its UTF-16 units. A character beyond the first plane takes two units, a
high and a low surrogate. Unlike a list of characters, a list of units may hold one half of such a
pair; it differs from the other halves and from every character.
-/

namespace CodeAtlas

/-- A text by its UTF-16 units. -/
structure UnitText where
  units : List UInt16
  deriving Repr, DecidableEq, Inhabited

namespace UnitText

/-- Whether a unit is the first half of a pair. -/
def isHigh (u : UInt16) : Bool := 0xd800 ≤ u && u < 0xdc00

/-- Whether a unit is the second half of a pair. -/
def isLow (u : UInt16) : Bool := 0xdc00 ≤ u && u < 0xe000

/-- The units of a character. -/
def unitsOf (c : Char) : List UInt16 :=
  if c.toNat < 0x10000 then [UInt16.ofNat c.toNat]
  else
    [UInt16.ofNat (0xd800 + (c.toNat - 0x10000) / 0x400),
      UInt16.ofNat (0xdc00 + (c.toNat - 0x10000) % 0x400)]

/-- The units of characters. -/
def ofChars (cs : List Char) : UnitText := ⟨cs.flatMap unitsOf⟩

/-- The units of a text. -/
def ofString (s : String) : UnitText := ofChars s.toList

instance : Coe String UnitText := ⟨ofString⟩

/-- The character that a pair of halves stands for. -/
def charOfPair (high low : UInt16) : Char :=
  Char.ofNat (0x10000 + (high.toNat - 0xd800) * 0x400 + (low.toNat - 0xdc00))

/-- What texts consist of: characters, and halves of pairs without their other one. -/
inductive Symbol where
  | char (c : Char)
  | half (u : UInt16)
  deriving Repr, DecidableEq

/-- What a single unit stands for. -/
def symbolOf (u : UInt16) : Symbol :=
  if isHigh u || isLow u then .half u else .char (Char.ofNat u.toNat)

/-- What units consist of. -/
def symbolsOf : List UInt16 → List Symbol
  | [] => []
  | [u] => [symbolOf u]
  | u :: v :: rest =>
    if isHigh u && isLow v then .char (charOfPair u v) :: symbolsOf rest
    else symbolOf u :: symbolsOf (v :: rest)

/-- What a text consists of. -/
def symbols (t : UnitText) : List Symbol := symbolsOf t.units

namespace Symbol

/-- The character, if it is one. -/
def char? : Symbol → Option Char
  | .char c => some c
  | .half _ => none

/-- The character or half as a text. -/
def text : Symbol → UnitText
  | .char c => ofChars [c]
  | .half u => ⟨[u]⟩

/-- The character or half inside a text quoted with `quote`; a half is shown by its number. -/
def quoted (quote : Char) : Symbol → List Char
  | .char c => Text.quotedChar quote c
  | .half u => '\\' :: 'u' :: Text.hexPadded 4 u.toNat

end Symbol

/-- The text as characters; `none` if it has a half of a pair. -/
def toString? (t : UnitText) : Option String := (t.symbols.mapM Symbol.char?).map String.ofList

/-- The text between quotes. -/
def quoted (t : UnitText) : String :=
  let quote := Text.quoteFor (String.ofList (t.symbols.filterMap Symbol.char?))
  String.ofList (quote :: t.symbols.flatMap (Symbol.quoted quote) ++ [quote])

/-!
## Units and characters

The units of a text consist of its characters again: the two halves of a pair are told from single
units and give the character they stand for. So no two texts have the same units.
-/

/-- No character lies beyond the last code point. -/
theorem toNat_lt (c : Char) : c.toNat < 0x110000 := by
  have hvalid : c.toNat < 0xd800 ∨ (0xdfff < c.toNat ∧ c.toNat < 0x110000) := c.valid
  omega

/-- No character is a surrogate. -/
theorem not_surrogate (c : Char) : c.toNat < 0xd800 ∨ 0xdfff < c.toNat :=
  c.valid.imp id And.left

theorem toNat_ofNat {n : Nat} (h : n < 0x10000) : (UInt16.ofNat n).toNat = n :=
  UInt16.toNat_ofNat_of_lt' h

theorem isHigh_ofNat {n : Nat} (h : n < 0x10000) :
    isHigh (UInt16.ofNat n) = (decide (0xd800 ≤ n) && decide (n < 0xdc00)) := by
  simp only [isHigh, UInt16.le_iff_toNat_le, UInt16.lt_iff_toNat_lt, toNat_ofNat h]
  rfl

theorem isLow_ofNat {n : Nat} (h : n < 0x10000) :
    isLow (UInt16.ofNat n) = (decide (0xdc00 ≤ n) && decide (n < 0xe000)) := by
  simp only [isLow, UInt16.le_iff_toNat_le, UInt16.lt_iff_toNat_lt, toNat_ofNat h]
  rfl

/-- A unit that is no half of a pair stands for itself, whatever follows. -/
theorem symbolsOf_cons {u : UInt16} (hhigh : isHigh u = false) (rest : List UInt16) :
    symbolsOf (u :: rest) = symbolOf u :: symbolsOf rest := by
  cases rest with
  | nil => rfl
  | cons v rest => simp [symbolsOf, hhigh]

/-- The units of a character stand for the character, whatever follows. -/
theorem symbolsOf_unitsOf (c : Char) (rest : List UInt16) :
    symbolsOf (unitsOf c ++ rest) = .char c :: symbolsOf rest := by
  have hlt := toNat_lt c
  have hplain := not_surrogate c
  unfold unitsOf
  by_cases hbmp : c.toNat < 0x10000
  · have hhigh : isHigh (UInt16.ofNat c.toNat) = false := by
      simp only [isHigh_ofNat hbmp, Bool.and_eq_false_iff, decide_eq_false_iff_not]
      omega
    have hlow : isLow (UInt16.ofNat c.toNat) = false := by
      simp only [isLow_ofNat hbmp, Bool.and_eq_false_iff, decide_eq_false_iff_not]
      omega
    rw [if_pos hbmp, List.singleton_append, symbolsOf_cons hhigh, symbolOf, hhigh, hlow,
      toNat_ofNat hbmp, Char.ofNat_toNat]
    rfl
  · have hhigh : isHigh (UInt16.ofNat (0xd800 + (c.toNat - 0x10000) / 0x400)) = true := by
      rw [isHigh_ofNat (by omega), Bool.and_eq_true, decide_eq_true_eq, decide_eq_true_eq]
      omega
    have hlow : isLow (UInt16.ofNat (0xdc00 + (c.toNat - 0x10000) % 0x400)) = true := by
      rw [isLow_ofNat (by omega), Bool.and_eq_true, decide_eq_true_eq, decide_eq_true_eq]
      omega
    have hpair : charOfPair (UInt16.ofNat (0xd800 + (c.toNat - 0x10000) / 0x400))
        (UInt16.ofNat (0xdc00 + (c.toNat - 0x10000) % 0x400)) = c := by
      have hcode : 0x10000 + (0xd800 + (c.toNat - 0x10000) / 0x400 - 0xd800) * 0x400 +
          (0xdc00 + (c.toNat - 0x10000) % 0x400 - 0xdc00) = c.toNat := by omega
      rw [charOfPair, toNat_ofNat (by omega), toNat_ofNat (by omega), hcode, Char.ofNat_toNat]
    rw [if_neg hbmp, List.cons_append, List.singleton_append, symbolsOf, hhigh, hlow, hpair]
    rfl

/-- The units of a text consist of its characters. -/
theorem symbols_ofChars (cs : List Char) : (ofChars cs).symbols = cs.map .char := by
  unfold symbols ofChars
  induction cs with
  | nil => rfl
  | cons c cs ih => rw [List.flatMap_cons, symbolsOf_unitsOf, ih, List.map_cons]

/-- A text is made of its units again. -/
theorem toString?_ofString (s : String) : (ofString s).toString? = some s := by
  have hchars (cs : List Char) : (cs.map Symbol.char).mapM Symbol.char? = some cs := by
    induction cs with
    | nil => rfl
    | cons c cs ih => simp [List.mapM_cons, ih, Symbol.char?]
  rw [toString?, ofString, symbols_ofChars, hchars, Option.map_some, String.ofList_toList]

end UnitText

end CodeAtlas
