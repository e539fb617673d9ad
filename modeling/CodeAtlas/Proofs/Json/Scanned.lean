import CodeAtlas.Json.Printer
import CodeAtlas.Json.Reader
import CodeAtlas.Proofs.Json.Numbers
import CodeAtlas.Text.Units

/-!
# Written texts and numbers scanned back

A written text uses escapes for quotes, control characters and everything that is not
ASCII. Scanning turns each escape into a part of the text, and the parts make the text again,
whether it is kept by characters or by units. A written number is scanned back as itself when what
follows it could not continue it.
-/

namespace CodeAtlas

/-- A form of texts in which what is written is read back. -/
class LawfulWording (τ : Type) [Wording τ] : Prop where
  toString?_ofString (s : String) : Wording.toString? (Wording.ofString s : τ) = some s
  /-- What is written of a text makes the text again, up to the closing quote. -/
  scanText_escaped (t : τ) (rest : List Char) : ∃ parts,
    Json.scanText (Wording.escaped t ++ '"' :: rest) = some (parts, rest) ∧
      Wording.ofParts parts = t
  /-- No text is written with a return: it is written as an escape. -/
  return_not_mem_escaped (t : τ) : '\r' ∉ Wording.escaped t

namespace Json

/-! ## Texts -/

/-- A written hexadecimal digit is read as its value. -/
theorem hexValue?_hexDigit (n : Nat) : hexValue? (Text.hexDigit n) = some (n % 16) := by
  have htable : ∀ m : Fin 16, hexValue? (Nat.digitChar m) = some m.1 := by decide
  exact htable ⟨n % 16, Nat.mod_lt n (by decide)⟩

/-- Four written digits are read as the number that they write. -/
theorem hexQuad?_hexDigits {n : Nat} (h : n < 0x10000) :
    hexQuad? (Text.hexDigit (n / 16 / 16 / 16)) (Text.hexDigit (n / 16 / 16))
      (Text.hexDigit (n / 16)) (Text.hexDigit n) = some n := by
  have hvalue : ((n / 16 / 16 / 16 % 16 * 16 + n / 16 / 16 % 16) * 16 + n / 16 % 16) * 16 +
      n % 16 = n := by omega
  simp [hexQuad?, hexValue?_hexDigit, hvalue]

/-- The escape of a unit is scanned as that unit. -/
theorem scanText_unitEscape {n : Nat} (h : n < 0x10000) (rest : List Char) :
    scanText (unitEscape n ++ rest) =
      (scanText rest).map fun p => (.unit n :: p.1, p.2) := by
  have hescape : unitEscape n ++ rest =
      '\\' :: 'u' :: Text.hexDigit (n / 16 / 16 / 16) :: Text.hexDigit (n / 16 / 16) ::
        Text.hexDigit (n / 16) :: Text.hexDigit n :: rest := rfl
  rw [hescape, scanText, hexQuad?_hexDigits h]
  cases scanText rest <;> rfl

/-- A short escape is scanned as the character that it stands for. -/
theorem scanText_plainEscape {e c : Char} (he : plainEscape? e = some c) (rest : List Char) :
    scanText ('\\' :: e :: rest) = (scanText rest).map fun p => (.char c :: p.1, p.2) := by
  have hu : e ≠ 'u' := by
    rintro rfl
    rw [show plainEscape? 'u' = none from by decide] at he
    cases he
  rw [scanText]
  · rw [he]
    cases scanText rest <;> rfl
  · intro _ _ _ _ _ heq
    exact absurd heq hu

/-- A character that needs no escape is scanned as itself. -/
theorem scanText_cons {c : Char} (hquote : c ≠ '"') (hslash : c ≠ '\\') (hlow : 0x20 ≤ c.toNat)
    (rest : List Char) :
    scanText (c :: rest) = (scanText rest).map fun p => (.char c :: p.1, p.2) := by
  have hplain : (decide (c.toNat < 0x20) || decide (c = '\\')) = false := by
    simp [hslash, hlow]
  rw [scanText]
  · rw [hplain]
    cases scanText rest <;> rfl
  · exact hquote
  · intro _ _ _ _ _ hc
    exact absurd hc hslash
  · intro _ _ hc
    exact absurd hc hslash

/-- The parts that a written character is scanned as: the character, or its UTF-16 units. -/
def writtenParts (c : Char) : List TextPart :=
  if c = '"' ∨ c = '\\' ∨ c = '\n' ∨ c = '\r' ∨ c = '\t' ∨ c.toNat = 8 ∨ c.toNat = 12 ∨
      (0x20 ≤ c.toNat ∧ c.toNat < 0x7f) then [.char c]
  else if c.toNat < 0x10000 then [.unit c.toNat]
  else [.unit (0xd800 + (c.toNat - 0x10000) / 0x400), .unit (0xdc00 + (c.toNat - 0x10000) % 0x400)]

/-- A character with a short escape is scanned back. -/
theorem scanText_writtenChar_of_plainEscape {c e : Char} (hwritten : writtenChar c = ['\\', e])
    (hparts : writtenParts c = [.char c]) (he : plainEscape? e = some c) (rest : List Char) :
    scanText (writtenChar c ++ rest) =
      (scanText rest).map fun p => (writtenParts c ++ p.1, p.2) := by
  rw [hwritten, hparts]
  exact scanText_plainEscape he rest

/-- What is written for a character is scanned as its parts. -/
theorem scanText_writtenChar (c : Char) (rest : List Char) :
    scanText (writtenChar c ++ rest) =
      (scanText rest).map fun p => (writtenParts c ++ p.1, p.2) := by
  have hcode {n : Nat} (h : c.toNat = n) : c = Char.ofNat n := by rw [← h, Char.ofNat_toNat]
  by_cases hquote : c = '"'
  · subst hquote
    exact scanText_writtenChar_of_plainEscape rfl rfl (by decide) rest
  by_cases hslash : c = '\\'
  · subst hslash
    exact scanText_writtenChar_of_plainEscape rfl rfl (by decide) rest
  by_cases hnewline : c = '\n'
  · subst hnewline
    exact scanText_writtenChar_of_plainEscape rfl rfl (by decide) rest
  by_cases hreturn : c = '\r'
  · subst hreturn
    exact scanText_writtenChar_of_plainEscape rfl rfl (by decide) rest
  by_cases htab : c = '\t'
  · subst htab
    exact scanText_writtenChar_of_plainEscape rfl rfl (by decide) rest
  by_cases hback : c.toNat = 8
  · rw [hcode hback]
    exact scanText_writtenChar_of_plainEscape rfl rfl (by decide) rest
  by_cases hfeed : c.toNat = 12
  · rw [hcode hfeed]
    exact scanText_writtenChar_of_plainEscape rfl rfl (by decide) rest
  unfold writtenChar writtenParts
  simp only [hquote, hslash, hnewline, hreturn, htab, hback, hfeed, if_false, false_or,
    Bool.and_eq_true, decide_eq_true_eq]
  by_cases hascii : 0x20 ≤ c.toNat ∧ c.toNat < 0x7f
  · rw [if_pos hascii, if_pos hascii]
    exact scanText_cons hquote hslash hascii.1 rest
  by_cases hbmp : c.toNat < 0x10000
  · rw [if_neg hascii, if_pos hbmp, if_neg hascii, if_pos hbmp]
    exact scanText_unitEscape hbmp rest
  · have hlt := UnitText.toNat_lt c
    rw [if_neg hascii, if_neg hbmp, if_neg hascii, if_neg hbmp, List.append_assoc,
      scanText_unitEscape (by omega), scanText_unitEscape (by omega)]
    cases scanText rest <;> rfl

/-- A written text is scanned up to its closing quote. -/
theorem scanText_written (cs rest : List Char) :
    scanText (cs.flatMap writtenChar ++ '"' :: rest) = some (cs.flatMap writtenParts, rest) := by
  induction cs with
  | nil => simp [scanText]
  | cons c cs ih =>
    rw [List.flatMap_cons, List.append_assoc, scanText_writtenChar, ih, List.flatMap_cons]
    rfl

/-- A unit that is no surrogate makes a character of its own, whatever follows. -/
theorem joinParts_unit {n : Nat} (h : n < 0xd800 ∨ 0xdfff < n) (rest : List TextPart) :
    joinParts (.unit n :: rest) = Char.ofNat n :: joinParts rest := by
  have hplain : (decide (0xd800 ≤ n) && decide (n < 0xe000)) = false := by
    simp only [Bool.and_eq_false_iff, decide_eq_false_iff_not]
    omega
  have hhigh (low : Nat) : (decide (0xd800 ≤ n) && decide (n < 0xdc00) && decide (0xdc00 ≤ low) &&
      decide (low < 0xe000)) = false := by
    simp only [Bool.and_eq_false_iff, decide_eq_false_iff_not]
    omega
  match rest with
  | [] => simp [joinParts, hplain]
  | .char c :: rest => simp [joinParts, hplain]
  | .unit low :: rest => rw [joinParts, hhigh, hplain]; rfl

/-- The parts of a written character join to the character. -/
theorem joinParts_writtenParts (c : Char) (rest : List TextPart) :
    joinParts (writtenParts c ++ rest) = c :: joinParts rest := by
  have hlt := UnitText.toNat_lt c
  unfold writtenParts
  split
  · rfl
  · split
    · rw [List.singleton_append, joinParts_unit (UnitText.not_surrogate c), Char.ofNat_toNat]
    · next hbmp =>
      have hpair : (decide (0xd800 ≤ 0xd800 + (c.toNat - 0x10000) / 0x400) &&
          decide (0xd800 + (c.toNat - 0x10000) / 0x400 < 0xdc00) &&
          decide (0xdc00 ≤ 0xdc00 + (c.toNat - 0x10000) % 0x400) &&
          decide (0xdc00 + (c.toNat - 0x10000) % 0x400 < 0xe000)) = true := by
        simp only [Bool.and_eq_true, decide_eq_true_eq]
        omega
      have hcode : 0x10000 + (0xd800 + (c.toNat - 0x10000) / 0x400 - 0xd800) * 0x400 +
          (0xdc00 + (c.toNat - 0x10000) % 0x400 - 0xdc00) = c.toNat := by omega
      simp only [List.cons_append, List.nil_append, joinParts]
      rw [hpair, hcode, Char.ofNat_toNat]
      rfl

/-- The parts of a written text join to the text. -/
theorem joinParts_written (cs : List Char) : joinParts (cs.flatMap writtenParts) = cs := by
  induction cs with
  | nil => rfl
  | cons c cs ih => rw [List.flatMap_cons, joinParts_writtenParts, ih]

theorem hexDigit_ne_return (n : Nat) : Text.hexDigit n ≠ '\r' := by
  have htable : ∀ m : Fin 16, Nat.digitChar m ≠ '\r' := by decide
  exact htable ⟨n % 16, Nat.mod_lt n (by decide)⟩

theorem return_not_mem_unitEscape (n : Nat) : '\r' ∉ unitEscape n := by
  have hdigits (width n : Nat) : '\r' ∉ Text.hexPadded width n := by
    induction width generalizing n with
    | zero => exact List.not_mem_nil
    | succ width ih => simp [Text.hexPadded, ih, (hexDigit_ne_return _).symm]
  simp [unitEscape, hdigits]

theorem return_not_mem_writtenChar (c : Char) : '\r' ∉ writtenChar c := by
  grind [writtenChar, return_not_mem_unitEscape]

/-- Texts of characters are read back as they were written. -/
instance : LawfulWording String where
  toString?_ofString _ := rfl
  scanText_escaped s rest := by
    refine ⟨_, scanText_written s.toList rest, ?_⟩
    change String.ofList (joinParts _) = s
    rw [joinParts_written, String.ofList_toList]
  return_not_mem_escaped s := by
    change '\r' ∉ s.toList.flatMap writtenChar
    simp [return_not_mem_writtenChar]

/-- What is written for a unit is scanned as a part that is made of the unit. -/
theorem scanText_writtenUnit (u : UInt16) : ∃ part : TextPart, part.units = [u] ∧
    ∀ rest, scanText (writtenUnit u ++ rest) =
      (scanText rest).map fun p => (part :: p.1, p.2) := by
  unfold writtenUnit
  split
  · next hascii =>
    have hlt : u.toNat < 0x7f := UInt16.lt_iff_toNat_lt.1 hascii
    have hcode : (Char.ofNat u.toNat).toNat = u.toNat := by
      rw [Char.ofNat, dif_pos (Or.inl (by omega))]
      rfl
    -- an ASCII character is scanned as itself or as its one unit
    obtain ⟨part, hpart, hunits⟩ : ∃ part, writtenParts (Char.ofNat u.toNat) = [part] ∧
        part.units = [u] := by
      have hunit : UInt16.ofNat u.toNat = u := UInt16.ofNat_toNat
      unfold writtenParts
      rw [hcode, if_pos (show u.toNat < 0x10000 by omega)]
      split
      · refine ⟨_, rfl, ?_⟩
        rw [TextPart.units, UnitText.unitsOf, hcode, if_pos (by omega), hunit]
      · exact ⟨_, rfl, by rw [TextPart.units, hunit]⟩
    refine ⟨part, hunits, fun rest => ?_⟩
    rw [scanText_writtenChar, hpart]
    rfl
  · exact ⟨.unit u.toNat, by rw [TextPart.units, UInt16.ofNat_toNat],
      scanText_unitEscape u.toNat_lt⟩

/-- Texts of units are read back as they were written. -/
instance : LawfulWording UnitText where
  toString?_ofString := UnitText.toString?_ofString
  scanText_escaped t rest := by
    obtain ⟨us⟩ := t
    change ∃ parts, scanText (us.flatMap writtenUnit ++ '"' :: rest) = some (parts, rest) ∧
      (⟨parts.flatMap TextPart.units⟩ : UnitText) = ⟨us⟩
    induction us with
    | nil => exact ⟨[], rfl, rfl⟩
    | cons u us ih =>
      obtain ⟨parts, hscan, hunits⟩ := ih
      obtain ⟨part, hpart, hfirst⟩ := scanText_writtenUnit u
      refine ⟨part :: parts, ?_, ?_⟩
      · rw [List.flatMap_cons, List.append_assoc, hfirst, hscan]
        rfl
      · rw [List.flatMap_cons, hpart, UnitText.mk.inj hunits]
        rfl
  return_not_mem_escaped t := by
    have hunit (u : UInt16) : '\r' ∉ writtenUnit u := by
      unfold writtenUnit
      split
      · exact return_not_mem_writtenChar _
      · exact return_not_mem_unitEscape _
    change '\r' ∉ t.units.flatMap writtenUnit
    simp [hunit]

section Tokens

variable {τ : Type}

/-- A digit is none of the other characters with which a token may begin. -/
theorem ne_of_isDigit {c d : Char} (hc : c.isDigit = true) (hd : d.isDigit = false) : c ≠ d := by
  rintro rfl
  rw [hd] at hc
  cases hc

/-- No word begins with a digit. -/
theorem scanWord_of_isDigit {c : Char} (hc : c.isDigit = true) (cs : List Char) :
    scanWord (τ := τ) (c :: cs) = none := by
  have hne {d : Char} (hd : d.isDigit = false) : ¬d = c := (ne_of_isDigit hc hd).symm
  simp [scanWord, words, hne]

/-- The word for a negative infinity has no digit after its sign. -/
theorem scanWord_minus {c : Char} (hc : c.isDigit = true) (cs : List Char) :
    scanWord (τ := τ) ('-' :: c :: cs) = none := by
  have hne : 'I' ≠ c := (ne_of_isDigit hc (by decide)).symm
  simp [scanWord, words, hne]

variable [Wording τ]

/-- A written text is the token of that text. -/
theorem scanToken_writtenText [LawfulWording τ] (t : τ) (rest : List Char) :
    scanToken (writtenText t ++ rest) = some (.text t, rest) := by
  obtain ⟨parts, hscan, hparts⟩ := LawfulWording.scanText_escaped t rest
  have hwritten : writtenText t ++ rest = '"' :: (Wording.escaped t ++ '"' :: rest) := by
    simp [writtenText]
  rw [hwritten]
  simp only [scanToken]
  rw [hscan, Option.map_some, hparts]

/-! ## Numbers -/

theorem delimited_newline (level : Nat) (rest : List Char) : Delimited (newline level ++ rest) := by
  simp [Delimited, newline]

/-- What begins with a digit or a minus sign and with no word is scanned as a number. -/
theorem scanToken_number {c : Char} {cs : List Char} (hc : c.isDigit = true ∨ c = '-')
    (hword : scanWord (τ := τ) (c :: cs) = none) :
    scanToken (τ := τ) (c :: cs) = (scanNumber (c :: cs)).map fun p => (.scalar p.1, p.2) := by
  have hne {d : Char} (hdigit : d.isDigit = false) (hminus : d ≠ '-') : c ≠ d := by
    rcases hc with hc | rfl
    · exact ne_of_isDigit hc hdigit
    · exact hminus.symm
  unfold scanToken
  split
  case h_1 heq => cases heq
  case h_9 => rw [hword]
  all_goals
    next heq => exact absurd (List.cons.inj heq).1 (hne (by decide) (by decide))

/-- A number with a minus sign or without is scanned as the number that it is. -/
theorem scanToken_sign (negative : Bool) {cs rest : List Char} {n : Numeral}
    (hn : scanNumeral cs = some (n, rest)) :
    scanToken (τ := τ) ((if negative then ['-'] else []) ++ cs) =
      some (.scalar (ofNumeral negative n), rest) := by
  obtain ⟨c, ds, rfl, hc⟩ := exists_digit_of_scanNumeral hn
  cases negative with
  | false =>
    have hsign : takeSign (c :: ds) = (false, c :: ds) := by
      rw [takeSign]
      intro _ heq
      exact ne_of_isDigit hc (by decide) (List.cons.inj heq).1
    simp [scanToken_number (Or.inl hc) (scanWord_of_isDigit hc _), scanNumber, hsign, hn]
  | true =>
    simp [scanToken_number (Or.inr rfl) (scanWord_minus hc _), scanNumber, takeSign, hn]

theorem toList_toString_ofNat (n : Nat) :
    (toString (Int.ofNat n)).toList = Nat.toDigits 10 n :=
  Nat.toList_repr

theorem toList_toString_negSucc (n : Nat) :
    (toString (Int.negSucc n)).toList = '-' :: Nat.toDigits 10 (n + 1) := by
  rw [← Nat.toList_repr]
  exact String.toList_append ..

/-- A written whole number is the token of that number, when it is delimited. -/
theorem scanToken_int (n : Int) {rest : List Char} (h : Delimited rest) :
    scanToken (τ := τ) ((toString n).toList ++ rest) = some (.scalar (.int n), rest) := by
  cases n with
  | ofNat m =>
    rw [toList_toString_ofNat]
    exact scanToken_sign false (scanNumeral_toDigits m h)
  | negSucc m =>
    rw [toList_toString_negSucc]
    exact scanToken_sign true (scanNumeral_toDigits (m + 1) h)

/-- A sign and the code of a magnitude, be it infinite, make the number that they are of. -/
theorem ofCode_val (negative : Bool) (code : Fin (Double.infinite + 1)) :
    Double.ofCode negative code = .signed negative code := by
  unfold Double.ofCode
  congr 1
  exact Fin.ext (Nat.min_eq_left (Nat.le_of_lt_succ code.isLt))

/-- A written number of double precision is the token of that number, when it is delimited. -/
theorem scanToken_decimal (x : Double) {rest : List Char} (h : Delimited rest) :
    scanToken (τ := τ) (x.written ++ rest) = some (.scalar (.decimal x), rest) := by
  cases x with
  | notANumber => rfl
  | signed negative code =>
    have hcode := ofCode_val negative code
    unfold Double.written Double.textWith
    dsimp only
    by_cases hinfinite : code.val = Double.infinite
    · rw [if_pos hinfinite, ← hcode, hinfinite]
      cases negative <;> rfl
    · have hmagnitude := scanNumeral_append h (scanNumeral_codeText code)
      rw [if_neg hinfinite, List.append_assoc, scanToken_sign negative hmagnitude, ofNumeral, hcode]

end Tokens

end Json

end CodeAtlas
