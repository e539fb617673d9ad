import CodeAtlas.Text.UnprintableSet

/-!
# Quoted texts

How a text is shown inside a message: between single quotes, or between double quotes when
it holds a single quote and no double one. The quote, the backslash and every unprintable
character are escaped; code points are written in hexadecimal of a fixed width.
-/

namespace CodeAtlas.Text

/-- One hexadecimal digit in lower case. -/
def hexDigit (n : Nat) : Char := Nat.digitChar (n % 16)

/-- The last `width` hexadecimal digits of a number. -/
def hexPadded : Nat → Nat → List Char
  | 0, _ => []
  | width + 1, n => hexPadded width (n / 16) ++ [hexDigit n]

/-- The hexadecimal digits of a number, at least `width` of them. -/
def hexAtLeast (width n : Nat) : List Char :=
  (if n < Nat.pow 16 width then [] else Nat.toDigits 16 (n / Nat.pow 16 width)) ++
    hexPadded width n

/-- A character inside a text quoted with `quote`. -/
def quotedChar (quote c : Char) : List Char :=
  if c = quote || c = '\\' then ['\\', c]
  else if c = '\t' then ['\\', 't']
  else if c = '\n' then ['\\', 'n']
  else if c = '\r' then ['\\', 'r']
  else if isPrintable c then [c]
  else if c.toNat < 0x100 then '\\' :: 'x' :: hexPadded 2 c.toNat
  else if c.toNat < 0x10000 then '\\' :: 'u' :: hexPadded 4 c.toNat
  else '\\' :: 'U' :: hexPadded 8 c.toNat

/-- The quote that surrounds a text: double only if that spares an escape. -/
def quoteFor (s : String) : Char :=
  if s.toList.contains '\'' && !s.toList.contains '"' then '"' else '\''

/-- The text between quotes. -/
def quoted (s : String) : String :=
  let quote := quoteFor s
  String.ofList (quote :: s.toList.flatMap (quotedChar quote) ++ [quote])

/-- Several quoted texts between brackets. -/
def quotedList (parts : List String) : String :=
  "[" ++ ", ".intercalate (parts.map quoted) ++ "]"

/-- A padded number has exactly the asked width. -/
theorem length_hexPadded (width n : Nat) : (hexPadded width n).length = width := by
  induction width generalizing n with
  | zero => rfl
  | succ w ih => simp [hexPadded, ih]

/-- A hexadecimal digit tells its value. -/
theorem hexDigit_inj {m n : Nat} (h : hexDigit m = hexDigit n) : m % 16 = n % 16 := by
  have htable : ∀ a b : Fin 16, Nat.digitChar a = Nat.digitChar b → a = b := by decide
  have hfin := htable ⟨m % 16, Nat.mod_lt m (by decide)⟩ ⟨n % 16, Nat.mod_lt n (by decide)⟩ h
  exact congrArg Fin.val hfin

/-- The last digits of a number tell its remainder. -/
theorem hexPadded_inj {width m n : Nat} (h : hexPadded width m = hexPadded width n) :
    m % Nat.pow 16 width = n % Nat.pow 16 width := by
  induction width generalizing m n with
  | zero => rw [show Nat.pow 16 0 = 1 from rfl, Nat.mod_one, Nat.mod_one]
  | succ w ih =>
    rw [hexPadded, hexPadded] at h
    obtain ⟨hhigh, hlow⟩ := List.append_inj' h rfl
    have hdigit := hexDigit_inj (List.singleton_inj.1 hlow)
    have hrest := ih hhigh
    rw [show Nat.pow 16 (w + 1) = 16 * Nat.pow 16 w from Nat.mul_comm _ _, Nat.mod_mul,
      Nat.mod_mul, hdigit, hrest]

/-- The digits of a number tell the number. -/
theorem toDigits_inj {m n : Nat} (h : Nat.toDigits 16 m = Nat.toDigits 16 n) : m = n := by
  have hsmall {a : Nat} (ha : a < 16) : Nat.digitChar a = hexDigit a := by
    rw [hexDigit, Nat.mod_eq_of_lt ha]
  induction m using Nat.strongRecOn generalizing n with
  | ind m ih =>
    rw [Nat.toDigits_eq_if (by decide), Nat.toDigits_eq_if (b := 16) (n := n) (by decide)] at h
    by_cases hm : m < 16 <;> by_cases hn : n < 16
    · rw [if_pos hm, if_pos hn, hsmall hm, hsmall hn] at h
      have hdigit := hexDigit_inj (List.singleton_inj.1 h)
      omega
    · rw [if_pos hm, if_neg hn] at h
      have hlength := congrArg List.length h
      have hpos : 0 < (Nat.toDigits 16 (n / 16)).length := Nat.length_toDigits_pos
      simp only [List.length_append, List.length_singleton] at hlength
      omega
    · rw [if_neg hm, if_pos hn] at h
      have hlength := congrArg List.length h
      have hpos : 0 < (Nat.toDigits 16 (m / 16)).length := Nat.length_toDigits_pos
      simp only [List.length_append, List.length_singleton] at hlength
      omega
    · rw [if_neg hm, if_neg hn] at h
      obtain ⟨hhigh, hlow⟩ := List.append_inj' h rfl
      have hquotient := ih (m / 16) (by omega) hhigh
      have hdigit : m % 16 % 16 = n % 16 % 16 := hexDigit_inj (by
        rw [← hsmall (Nat.mod_lt m (by decide)), ← hsmall (Nat.mod_lt n (by decide))]
        exact List.singleton_inj.1 hlow)
      omega

/-- Different numbers have different digits, however many. -/
theorem hexAtLeast_inj {width m n : Nat} (h : hexAtLeast width m = hexAtLeast width n) :
    m = n := by
  rw [hexAtLeast, hexAtLeast] at h
  obtain ⟨hhigh, hlow⟩ :=
    List.append_inj' h (by rw [length_hexPadded, length_hexPadded])
  have hremainder := hexPadded_inj hlow
  have hquotient : m / Nat.pow 16 width = n / Nat.pow 16 width := by
    split at hhigh <;> split at hhigh
    · next hm hn => rw [Nat.div_eq_of_lt hm, Nat.div_eq_of_lt hn]
    · exact absurd hhigh.symm Nat.toDigits_ne_nil
    · exact absurd hhigh Nat.toDigits_ne_nil
    · exact toDigits_inj hhigh
  rw [← Nat.div_add_mod m (Nat.pow 16 width), ← Nat.div_add_mod n (Nat.pow 16 width), hquotient,
    hremainder]

end CodeAtlas.Text
