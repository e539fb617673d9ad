

/-!
# Character sets

A character class of a standard, given by its ascending ranges of code points. Membership
walks the ranges and stops at the first one that begins beyond the character.
-/

namespace CodeAtlas.Text

/-- A set of characters as ascending, disjoint ranges of code points, both ends included. -/
structure CharSet where
  ranges : List (Nat × Nat)

/-- Whether one of the ascending ranges holds the code point. -/
def inRanges (n : Nat) : List (Nat × Nat) → Bool
  | [] => false
  | (low, high) :: rest => if n < low then false else n ≤ high || inRanges n rest

/-- Whether the set holds the character. -/
def CharSet.contains (s : CharSet) (c : Char) : Bool := inRanges c.toNat s.ranges

/-- A character found in the ranges lies in one of them. -/
theorem exists_range_of_inRanges {n : Nat} {ranges : List (Nat × Nat)}
    (h : inRanges n ranges = true) : ∃ r ∈ ranges, r.1 ≤ n ∧ n ≤ r.2 := by
  induction ranges with
  | nil => simp [inRanges] at h
  | cons r rest ih =>
    obtain ⟨low, high⟩ := r
    by_cases hlow : n < low
    · simp [inRanges, hlow] at h
    · simp only [inRanges, hlow, if_false, Bool.or_eq_true, decide_eq_true_eq] at h
      cases h with
      | inl hhigh => exact ⟨(low, high), by simp, by simpa using hlow, hhigh⟩
      | inr hrest =>
        obtain ⟨r, hr, hbounds⟩ := ih hrest
        exact ⟨r, by simp [hr], hbounds⟩

/-!
## Blank characters

White space by Unicode, with the four information separators and the next-line control
counted in. Trimming takes such characters off the ends of a text and keeps the rest.
-/

/-- White space: the ASCII controls from tab to return and from the file separator to the
space, next line, and the Unicode space and line separators. -/
def blankSet : CharSet := ⟨[
    (0x9, 0xD), (0x1C, 0x20), (0x85, 0x85), (0xA0, 0xA0), (0x1680, 0x1680), (0x2000, 0x200A),
    (0x2028, 0x2029), (0x202F, 0x202F), (0x205F, 0x205F), (0x3000, 0x3000)]⟩

/-- Whether the character is white space. -/
def isBlank (c : Char) : Bool := blankSet.contains c

/-- The characters from the first one that is kept. -/
def dropBlankStart (cs : List Char) : List Char := cs.dropWhile isBlank

/-- The characters up to the last one that is not white space. -/
def dropBlankEnd (cs : List Char) : List Char := (cs.reverse.dropWhile isBlank).reverse

/-- The characters without white space at either end. -/
def trimChars (cs : List Char) : List Char := dropBlankEnd (dropBlankStart cs)

/-- The text without white space at either end. -/
def trim (s : String) : String := String.ofList (trimChars s.toList)

/-- The text without white space at its end. -/
def trimEnd (s : String) : String := String.ofList (dropBlankEnd s.toList)

/-- Whether the text holds nothing but white space. -/
def isAllBlank (s : String) : Bool := s.toList.all isBlank

/-!
## Decimal digits

Every script's decimal digits count as digits. Each block of ten is a run from zero to nine,
so a digit's value is its distance from the start of its range, modulo ten.
-/

/-- The code points of decimal digits of all scripts; every range begins with a zero. -/
def digitSet : CharSet := ⟨[
    (0x30, 0x39), (0x660, 0x669), (0x6F0, 0x6F9), (0x7C0, 0x7C9), (0x966, 0x96F), (0x9E6, 0x9EF),
    (0xA66, 0xA6F), (0xAE6, 0xAEF), (0xB66, 0xB6F), (0xBE6, 0xBEF), (0xC66, 0xC6F),
    (0xCE6, 0xCEF), (0xD66, 0xD6F), (0xDE6, 0xDEF), (0xE50, 0xE59), (0xED0, 0xED9),
    (0xF20, 0xF29), (0x1040, 0x1049), (0x1090, 0x1099), (0x17E0, 0x17E9), (0x1810, 0x1819),
    (0x1946, 0x194F), (0x19D0, 0x19D9), (0x1A80, 0x1A89), (0x1A90, 0x1A99), (0x1B50, 0x1B59),
    (0x1BB0, 0x1BB9), (0x1C40, 0x1C49), (0x1C50, 0x1C59), (0xA620, 0xA629), (0xA8D0, 0xA8D9),
    (0xA900, 0xA909), (0xA9D0, 0xA9D9), (0xA9F0, 0xA9F9), (0xAA50, 0xAA59), (0xABF0, 0xABF9),
    (0xFF10, 0xFF19), (0x104A0, 0x104A9), (0x10D30, 0x10D39), (0x11066, 0x1106F),
    (0x110F0, 0x110F9), (0x11136, 0x1113F), (0x111D0, 0x111D9), (0x112F0, 0x112F9),
    (0x11450, 0x11459), (0x114D0, 0x114D9), (0x11650, 0x11659), (0x116C0, 0x116C9),
    (0x11730, 0x11739), (0x118E0, 0x118E9), (0x11950, 0x11959), (0x11C50, 0x11C59),
    (0x11D50, 0x11D59), (0x11DA0, 0x11DA9), (0x16A60, 0x16A69), (0x16AC0, 0x16AC9),
    (0x16B50, 0x16B59), (0x1D7CE, 0x1D7FF), (0x1E140, 0x1E149), (0x1E2F0, 0x1E2F9),
    (0x1E950, 0x1E959), (0x1FBF0, 0x1FBF9)]⟩

/-- The value of a decimal digit of any script, `none` for other characters. -/
def digitValue? (c : Char) : Option Nat :=
  (digitSet.ranges.find? fun r => r.1 ≤ c.toNat && c.toNat ≤ r.2).map fun r =>
    (c.toNat - r.1) % 10

/-- Whether the character is a decimal digit of some script. -/
def isDigit (c : Char) : Bool := digitSet.contains c

/-- The number that a run of decimal digits writes; other characters count as zero. -/
def natOfDigits (cs : List Char) : Nat :=
  cs.foldl (fun n c => 10 * n + (digitValue? c).getD 0) 0

/-- Every value is below ten. -/
theorem digitValue?_lt {c : Char} {n : Nat} (h : digitValue? c = some n) : n < 10 := by
  obtain ⟨r, _, rfl⟩ := Option.map_eq_some_iff.1 h
  exact Nat.mod_lt _ (by decide)

end CodeAtlas.Text
