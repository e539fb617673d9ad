import CodeAtlas.Json.Number
import Mathlib.Data.List.TakeWhile
import Mathlib.Data.Nat.Log

/-!
# Written numbers read back

The codes of magnitudes count them without gaps, so each magnitude is the nearest one to itself.
What is written of a magnitude is the first text that is read as it, and its last digit is written
if all else fails; either way it is read back. Reading a number does not look beyond what could not
continue it.
-/

namespace CodeAtlas

-- Powers of numbers mean the same here whatever is imported.
attribute [local instance (high)] instPowNat

namespace Double

/-! ## Magnitudes -/

/-- Around a code of some exponent lie the magnitudes of the next binary power. -/
theorem mantissa_bounds {code : Nat} (h : 0 < exponentOf code) :
    2 ^ (52 : Nat) ≤ code - exponentOf code * 2 ^ (52 : Nat) ∧
      code - exponentOf code * 2 ^ (52 : Nat) < 2 ^ (53 : Nat) := by
  unfold exponentOf at h ⊢
  have hdiv := Nat.div_add_mod code (2 ^ (52 : Nat))
  have hmod := Nat.mod_lt code (show 0 < 2 ^ (52 : Nat) by decide)
  omega

/-- The largest magnitude with at most as many units as a magnitude has is that magnitude. -/
theorem codeBelow_unitsOf (code : Nat) : codeBelow (unitsOf code) = code := by
  unfold codeBelow unitsOf
  rcases Nat.eq_zero_or_pos (exponentOf code) with hzero | hpos
  · have hsmall : code < 2 ^ (53 : Nat) := by
      unfold exponentOf at hzero
      omega
    have hlog : code.log2 - 52 = 0 := by
      rcases Nat.eq_zero_or_pos code with rfl | hcode
      · decide
      · have := (Nat.log2_lt hcode.ne').2 hsmall
        omega
    simp [hzero, hlog]
  · obtain ⟨hlow, hhigh⟩ := mantissa_bounds hpos
    have hcode : exponentOf code * 2 ^ (52 : Nat) +
        (code - exponentOf code * 2 ^ (52 : Nat)) = code := by omega
    generalize exponentOf code = e at *
    generalize code - e * 2 ^ (52 : Nat) = m at *
    have hlog : (m * 2 ^ e).log2 = 52 + e := by
      rw [Nat.log2_eq_log_two, Nat.log_eq_iff (Or.inl (by omega))]
      rw [Nat.pow_add, show 52 + e + 1 = 53 + e by omega, Nat.pow_add]
      exact ⟨Nat.mul_le_mul_right _ hlow, Nat.mul_lt_mul_of_pos_right hhigh (Nat.two_pow_pos e)⟩
    rw [hlog, Nat.add_sub_cancel_left, Nat.mul_div_cancel _ (Nat.two_pow_pos e), hcode]

/-- A magnitude is the nearest one to itself, in units however small. -/
theorem nearest_unitsOf (code : Nat) {parts : Nat} (hparts : 0 < parts) :
    nearest (parts * unitsOf code) parts = code := by
  unfold nearest
  rw [Nat.mul_div_cancel_left _ hparts, codeBelow_unitsOf]
  have hgap : 0 < parts * 2 ^ exponentOf code := Nat.mul_pos hparts (Nat.two_pow_pos _)
  simp [hgap.ne']

/-- All digits of a magnitude are read as it. -/
theorem codeOfDecimal_exact (code count : Nat) :
    codeOfDecimal (unitsOf code * 5 ^ precision) count (-precision) = code := by
  unfold codeOfDecimal
  have hpower : ¬(-(precision : Int) < -(count + 2000 : Int)) := by
    unfold precision
    omega
  by_cases hzero : unitsOf code * 5 ^ precision = 0
  · have hunits : unitsOf code = 0 := by
      rcases Nat.mul_eq_zero.1 hzero with h | h
      · exact h
      · exact absurd h (Nat.pow_pos (by decide)).ne'
    have hcode := codeBelow_unitsOf code
    rw [hunits] at hcode
    rw [if_pos (by simp [hzero]), ← hcode]
    decide
  · rw [if_neg (by simp only [Bool.or_eq_true, decide_eq_true_eq, not_or]; exact ⟨hzero, hpower⟩),
      if_neg (by unfold precision; omega)]
    have hten : unitsOf code * 5 ^ precision * 10 ^ (-(precision : Int)).toNat * 2 ^ precision =
        10 ^ precision * unitsOf code := by
      rw [show (-(precision : Int)).toNat = 0 from rfl, Nat.pow_zero, Nat.mul_one, Nat.mul_assoc,
        ← Nat.mul_pow, Nat.mul_comm]
    rw [hten, show (- -(precision : Int)).toNat = precision from rfl]
    exact nearest_unitsOf code (Nat.pow_pos (by decide))

end Double

namespace Json

/-! ## Where numbers end -/

/-- What follows a written number cannot be taken for a part of it. -/
def Delimited (rest : List Char) : Prop :=
  ∀ c ∈ rest.head?, c.isDigit = false ∧ c ≠ '.' ∧ c ≠ 'e' ∧ c ≠ 'E'

theorem delimited_nil : Delimited [] := by simp [Delimited]

theorem delimited_comma (rest : List Char) : Delimited (',' :: rest) := by
  simp [Delimited, show (',').isDigit = false by decide]

/-- Digits are taken up to what is none. -/
theorem take_digits_append {ds rest : List Char} (hds : ∀ c ∈ ds, c.isDigit = true)
    (hrest : ∀ c ∈ rest.head?, c.isDigit = false) :
    (ds ++ rest).takeWhile (·.isDigit) = ds ∧ (ds ++ rest).dropWhile (·.isDigit) = rest := by
  have htake : rest.takeWhile (·.isDigit) = [] ∧ rest.dropWhile (·.isDigit) = rest := by
    cases rest with
    | nil => exact ⟨rfl, rfl⟩
    | cons c cs => simp [hrest c rfl]
  rw [List.takeWhile_append_of_pos hds, List.dropWhile_append_of_pos hds, htake.1, htake.2,
    List.append_nil]
  exact ⟨rfl, rfl⟩

/-- What remains of a text after its digits, followed by what is none, is followed by that. -/
theorem dropWhile_digits_append (cs : List Char) {rest : List Char} (h : Delimited rest) :
    (cs ++ rest).takeWhile (·.isDigit) = cs.takeWhile (·.isDigit) ∧
      (cs ++ rest).dropWhile (·.isDigit) = cs.dropWhile (·.isDigit) ++ rest := by
  induction cs with
  | nil => exact take_digits_append (List.forall_mem_nil _) fun c hc => (h c hc).1
  | cons c cs ih =>
    rw [List.cons_append]
    by_cases hc : c.isDigit = true <;> simp [hc, ih]

/-- No fraction and no exponent is taken where a number is delimited. -/
theorem take_of_delimited {rest : List Char} (h : Delimited rest) :
    takeFraction rest = ([], rest) ∧ takeExponent rest = (none, rest) := by
  cases rest with
  | nil => exact ⟨rfl, rfl⟩
  | cons c cs =>
    obtain ⟨-, hpoint, he, hE⟩ := h c rfl
    constructor
    · unfold takeFraction
      split
      · next heq => exact absurd (List.cons.inj heq).1 hpoint
      · rfl
    · unfold takeExponent
      split <;> simp_all

/-! ## Numbers that end where what follows is delimited -/

section Append

variable {cs after rest : List Char}

theorem takeWhole_append (h : Delimited rest) {whole : List Char}
    (hwhole : takeWhole cs = some (whole, after)) :
    takeWhole (cs ++ rest) = some (whole, after ++ rest) := by
  cases cs with
  | nil => cases hwhole
  | cons c cs =>
    obtain ⟨htake, hdrop⟩ := dropWhile_digits_append cs h
    rw [List.cons_append]
    by_cases hzero : c = '0'
    · subst hzero
      obtain ⟨rfl, rfl⟩ := Prod.mk.inj (Option.some.inj hwhole)
      rfl
    · rw [takeWhole.eq_2 _ _ hzero] at hwhole ⊢
      split at hwhole
      · next hdigit =>
        obtain ⟨rfl, rfl⟩ := Prod.mk.inj (Option.some.inj hwhole)
        rw [if_pos hdigit, htake, hdrop]
      · cases hwhole

theorem takeFraction_append (h : Delimited rest) {fraction : List Char}
    (hfraction : takeFraction cs = (fraction, after)) :
    takeFraction (cs ++ rest) = (fraction, after ++ rest) := by
  cases cs with
  | nil =>
    cases hfraction
    exact (take_of_delimited h).1
  | cons c cs =>
    obtain ⟨htake, hdrop⟩ := dropWhile_digits_append cs h
    rw [List.cons_append]
    by_cases hpoint : c = '.'
    · subst hpoint
      rw [takeFraction] at hfraction ⊢
      rw [htake, hdrop]
      split at hfraction
      · next hnone =>
        cases hfraction
        rw [if_pos hnone]
        rfl
      · next hsome =>
        cases hfraction
        rw [if_neg hsome]
    · have hnone (r : List Char) : takeFraction (c :: r) = ([], c :: r) := by
        unfold takeFraction
        split
        · next heq => exact absurd (List.cons.inj heq).1 hpoint
        · rfl
      rw [hnone] at hfraction ⊢
      cases hfraction
      rfl

theorem takeExponentDigits_append (h : Delimited rest) {negative : Bool} {whole : List Char}
    {exponent : Option Int} (hexponent : takeExponentDigits negative whole cs = (exponent, []))
    (hwhole : whole ≠ []) (others : List Char) :
    takeExponentDigits negative others (cs ++ rest) = (exponent, rest) := by
  obtain ⟨htake, hdrop⟩ := dropWhile_digits_append cs h
  unfold takeExponentDigits at hexponent ⊢
  split at hexponent
  · exact absurd (Prod.mk.inj hexponent).2 hwhole
  · next hsome =>
    obtain ⟨rfl, hrest⟩ := Prod.mk.inj hexponent
    rw [htake, hdrop, if_neg hsome, hrest]
    rfl

/-- An exponent that ends a text ends it also where a delimited rest follows. -/
theorem takeExponent_append (h : Delimited rest) {exponent : Option Int}
    (hexponent : takeExponent cs = (exponent, [])) :
    takeExponent (cs ++ rest) = (exponent, rest) := by
  unfold takeExponent at hexponent
  split at hexponent
  · next e digits =>
    split at hexponent
    · next hmark =>
      rw [List.cons_append, List.cons_append, takeExponent, if_pos hmark]
      exact takeExponentDigits_append h hexponent nofun _
    · cases hexponent
  · next e digits =>
    split at hexponent
    · next hmark =>
      rw [List.cons_append, List.cons_append, takeExponent, if_pos hmark]
      exact takeExponentDigits_append h hexponent nofun _
    · cases hexponent
  · next e digits hplus hminus =>
    split at hexponent
    · next hmark =>
      have hnonempty : digits ≠ [] := by
        rintro rfl
        cases hexponent
      obtain ⟨d, ds, rfl⟩ := List.exists_cons_of_ne_nil hnonempty
      rw [List.cons_append, List.cons_append, takeExponent.eq_3, if_pos hmark, ← List.cons_append]
      · exact takeExponentDigits_append h hexponent nofun _
      · exact fun r heq => hplus ds (by rw [(List.cons.inj heq).1])
      · exact fun r heq => hminus ds (by rw [(List.cons.inj heq).1])
    · cases hexponent
  · cases hexponent
    exact (take_of_delimited h).2

/-- A text that is a number is scanned as that number where a delimited rest follows. -/
theorem scanNumeral_append (h : Delimited rest) {n : Numeral}
    (hn : scanNumeral cs = some (n, [])) : scanNumeral (cs ++ rest) = some (n, rest) := by
  unfold scanNumeral at hn ⊢
  cases hwhole : takeWhole cs with
  | none =>
    rw [hwhole] at hn
    cases hn
  | some p =>
    obtain ⟨whole, afterWhole⟩ := p
    rw [hwhole] at hn
    rw [takeWhole_append h hwhole]
    simp only [Option.bind_eq_bind, Option.bind_some] at hn ⊢
    cases hfraction : takeFraction afterWhole with
    | mk fraction afterFraction =>
      rw [hfraction] at hn
      rw [takeFraction_append h hfraction]
      dsimp only at hn ⊢
      cases hexponent : takeExponent afterFraction with
      | mk exponent last =>
        rw [hexponent] at hn
        dsimp only at hn
        obtain rfl : last = [] := by
          split at hn <;> exact (Prod.mk.inj (Option.some.inj hn)).2
        rw [takeExponent_append h hexponent]
        dsimp only
        split at hn <;> simp_all

end Append

/-! ## The characters of numbers -/

section Characters

variable {cs after : List Char} {c : Char}

/-- What is taken for digits leaves the other characters. -/
theorem mem_dropWhile_digits (hc : c.isDigit = false) (hmem : c ∈ cs) :
    c ∈ cs.dropWhile (·.isDigit) := by
  rw [← List.takeWhile_append_dropWhile (p := (·.isDigit)) (l := cs)] at hmem
  rcases List.mem_append.1 hmem with hdigit | hrest
  · rw [List.mem_takeWhile_imp hdigit] at hc
    cases hc
  · exact hrest

theorem mem_of_takeWhole (hc : c.isDigit = false) {whole : List Char}
    (hwhole : takeWhole cs = some (whole, after)) (hmem : c ∈ cs) : c ∈ after := by
  cases cs with
  | nil => cases hmem
  | cons d cs =>
    have hrest {d : Char} (hd : d.isDigit = true) (hmem : c ∈ d :: cs) : c ∈ cs := by
      rcases List.mem_cons.1 hmem with rfl | hmem
      · rw [hd] at hc
        cases hc
      · exact hmem
    by_cases hzero : d = '0'
    · subst hzero
      cases hwhole
      exact hrest (by decide) hmem
    · rw [takeWhole.eq_2 _ _ hzero] at hwhole
      split at hwhole
      · next hdigit =>
        cases hwhole
        exact mem_dropWhile_digits hc (hrest hdigit hmem)
      · cases hwhole

theorem mem_of_takeFraction (hc : c.isDigit = false) (hpoint : c ≠ '.') {fraction : List Char}
    (hfraction : takeFraction cs = (fraction, after)) (hmem : c ∈ cs) : c ∈ after := by
  unfold takeFraction at hfraction
  split at hfraction
  · split at hfraction
    · cases hfraction
      exact hmem
    · cases hfraction
      exact mem_dropWhile_digits hc ((List.mem_cons.1 hmem).resolve_left hpoint)
  · cases hfraction
    exact hmem

/-- Only digits, signs and marks are taken for an exponent. -/
theorem mem_of_takeExponent (hc : c.isDigit = false) (hmarks : c ∉ ['e', 'E', '+', '-'])
    {exponent : Option Int} (hexponent : takeExponent cs = (exponent, after)) (hmem : c ∈ cs) :
    c ∈ after := by
  have hdigits {negative : Bool} {whole rest : List Char} (hwhole : c ∈ whole) (hrest : c ∈ rest)
      (htake : takeExponentDigits negative whole rest = (exponent, after)) : c ∈ after := by
    unfold takeExponentDigits at htake
    split at htake
    · exact (Prod.mk.inj htake).2 ▸ hwhole
    · exact (Prod.mk.inj htake).2 ▸ mem_dropWhile_digits hc hrest
  have hmark {e : Char} {rest : List Char} (he : (decide (e = 'e') || decide (e = 'E')) = true)
      (hmem : c ∈ e :: rest) : c ∈ rest := by
    refine (List.mem_cons.1 hmem).resolve_left ?_
    rintro rfl
    simp_all
  have hsigned {e sign : Char} {rest : List Char}
      (he : (decide (e = 'e') || decide (e = 'E')) = true) (hsign : sign ∈ ['+', '-'])
      (hmem : c ∈ e :: sign :: rest) : c ∈ rest := by
    refine (List.mem_cons.1 (hmark he hmem)).resolve_left ?_
    rintro rfl
    exact hmarks (List.mem_append_right ['e', 'E'] hsign)
  unfold takeExponent at hexponent
  split at hexponent
  · split at hexponent
    · next he => exact hdigits hmem (hsigned he (by decide) hmem) hexponent
    · cases hexponent
      exact hmem
  · split at hexponent
    · next he => exact hdigits hmem (hsigned he (by decide) hmem) hexponent
    · cases hexponent
      exact hmem
  · split at hexponent
    · next he => exact hdigits hmem (hmark he hmem) hexponent
    · cases hexponent
      exact hmem
  · cases hmem

/-- A number that ends its text has digits, a point, signs and marks alone. -/
theorem not_mem_of_scanNumeral (hc : c.isDigit = false) (hmarks : c ∉ ['.', 'e', 'E', '+', '-'])
    {n : Numeral} (hn : scanNumeral cs = some (n, [])) : c ∉ cs := by
  intro hmem
  unfold scanNumeral at hn
  obtain ⟨⟨whole, afterWhole⟩, hwhole, hn⟩ := Option.bind_eq_some_iff.1 hn
  have hmem := mem_of_takeWhole hc hwhole hmem
  dsimp only at hn
  cases hfraction : takeFraction afterWhole with
  | mk fraction afterFraction =>
    have hmem := mem_of_takeFraction hc (fun h => hmarks (by simp [h])) hfraction hmem
    rw [hfraction] at hn
    dsimp only at hn
    cases hexponent : takeExponent afterFraction with
    | mk exponent last =>
      have hmem :=
        mem_of_takeExponent hc (fun h => hmarks (List.mem_cons_of_mem _ h)) hexponent hmem
      rw [hexponent] at hn
      have hlast : last = [] := by
        dsimp only at hn
        split at hn <;> exact (Prod.mk.inj (Option.some.inj hn)).2
      rw [hlast] at hmem
      cases hmem

end Characters

/-! ## Written numbers -/

/-- The digits of a number that is not zero do not begin with a zero. -/
theorem head?_toDigits {n : Nat} (h : 0 < n) : (Nat.toDigits 10 n).head? ≠ some '0' := by
  induction n using Nat.strongRecOn with
  | ind n ih =>
    by_cases hsmall : n < 10
    · rw [Nat.toDigits_of_lt_base hsmall]
      simp
      omega
    · have hhead := ih (n / 10) (by omega) (by omega)
      rw [Nat.toDigits_of_base_le (by decide) (by omega), List.head?_append]
      cases hdigits : Nat.toDigits 10 (n / 10) with
      | nil => exact absurd hdigits Nat.toDigits_ne_nil
      | cons c cs => simpa [hdigits] using hhead

/-- The digits of a number are all taken, and nothing that follows them. -/
theorem takeWhole_toDigits (n : Nat) {rest : List Char} (h : ∀ c ∈ rest.head?, c.isDigit = false) :
    takeWhole (Nat.toDigits 10 n ++ rest) = some (Nat.toDigits 10 n, rest) := by
  by_cases hzero : n = 0
  · subst hzero
    rfl
  have hhead := head?_toDigits (Nat.pos_of_ne_zero hzero)
  have hdigit (c : Char) (hc : c ∈ Nat.toDigits 10 n) : c.isDigit = true :=
    Nat.isDigit_of_mem_toDigits (by decide) (by decide) hc
  cases hdigits : Nat.toDigits 10 n with
  | nil => exact absurd hdigits Nat.toDigits_ne_nil
  | cons c cs =>
    rw [hdigits] at hhead hdigit
    obtain ⟨htake, hdrop⟩ :=
      take_digits_append (fun d hd => hdigit d (List.mem_cons_of_mem c hd)) h
    rw [List.cons_append, takeWhole, if_pos (hdigit c (List.mem_cons_self ..)), htake, hdrop]
    exact fun hc => hhead (congrArg some hc)

/-- The digits of a number write that number. -/
theorem natOfDigits_toDigits (n : Nat) : natOfDigits (Nat.toDigits 10 n) = n := by
  have hvalue := Nat.ofDigitChars_ten_toDigits (n := n)
  rwa [Nat.ofDigitChars_eq_foldl] at hvalue

/-- The digits of a whole number are scanned as that number when it is delimited. -/
theorem scanNumeral_toDigits (n : Nat) {rest : List Char} (h : Delimited rest) :
    scanNumeral (Nat.toDigits 10 n ++ rest) = some (.whole n, rest) := by
  unfold scanNumeral
  simp only [takeWhole_toDigits n fun c hc => (h c hc).1, Option.bind_eq_bind, Option.bind_some,
    take_of_delimited h, natOfDigits_toDigits]
  rfl

/-- The digits of a magnitude and the least power are scanned as what they come to. -/
theorem scanNumeral_least {digits : List Char}
    (hwhole : takeWhole (digits ++ ['e', '-', '1', '0', '7', '4']) =
      some (digits, ['e', '-', '1', '0', '7', '4'])) :
    scanNumeral (digits ++ ['e', '-', '1', '0', '7', '4']) =
      some (.decimal (Double.codeOfDecimal (natOfDigits digits) digits.length
        (-(Double.precision : Int))), []) := by
  have hexponent : takeExponent ['e', '-', '1', '0', '7', '4'] =
      (some (-(Double.precision : Int)), []) := by decide
  unfold scanNumeral
  rw [hwhole]
  simp [takeFraction, hexponent]

/-- A magnitude that is written to its last digit is scanned as that magnitude. -/
theorem scanNumeral_exactText (code : Nat) :
    scanNumeral (Double.exactText (Double.unitsOf code)) = some (.decimal code, []) := by
  have htext : Double.exactText (Double.unitsOf code) =
      Nat.toDigits 10 (Double.unitsOf code * 5 ^ Double.precision) ++
        ['e', '-', '1', '0', '7', '4'] := rfl
  rw [htext, scanNumeral_least (takeWhole_toDigits _ (by simp)), natOfDigits_toDigits,
    Double.codeOfDecimal_exact]

/-- What is found, or else a text that is read as a magnitude itself, is read as it. -/
theorem scanNumeral_getD_find? {code : Nat} {last : List Char}
    (hlast : scanNumeral last = some (.decimal code, [])) (forms : List (List Char)) :
    scanNumeral ((forms.find? fun cs => scanNumeral cs = some (.decimal code, [])).getD last) =
      some (.decimal code, []) := by
  cases hfound : forms.find? fun cs => scanNumeral cs = some (.decimal code, []) with
  | none => exact hlast
  | some cs => exact of_decide_eq_true (List.find?_some hfound :)

/-- A written magnitude is scanned as that magnitude. -/
theorem scanNumeral_codeText (code : Nat) :
    scanNumeral (Double.codeText code) = some (.decimal code, []) :=
  scanNumeral_getD_find? (scanNumeral_exactText code) _

/-- What is scanned as a number begins with a digit. -/
theorem exists_digit_of_scanNumeral {cs : List Char} {p : Numeral × List Char}
    (h : scanNumeral cs = some p) : ∃ c rest, cs = c :: rest ∧ c.isDigit = true := by
  cases cs with
  | nil => cases h
  | cons c rest =>
    refine ⟨c, rest, rfl, ?_⟩
    by_contra hdigit
    have hzero : c ≠ '0' := by
      rintro rfl
      exact hdigit (by decide)
    have hnone : takeWhole (c :: rest) = none := by
      rw [takeWhole.eq_2 _ _ hzero, if_neg hdigit]
    unfold scanNumeral at h
    rw [hnone] at h
    cases h

end Json

end CodeAtlas
