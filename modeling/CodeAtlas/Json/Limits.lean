import CodeAtlas.Json.Reader

/-!
# Limits of reading

An interpreter may refuse a document that is well written: one with a whole number of too many
digits, or with arrays and objects too deep within each other. Reading goes from the left, so what
counts is which is met first, a limit or a part that is out of place.
-/

namespace CodeAtlas.Json

-- Powers of numbers mean the same here whatever is imported.
attribute [local instance (high)] instPowNat

/-- What an interpreter allows; `none` is no limit. -/
structure Limits where
  /-- How many digits a whole number may have. -/
  digits : Option Nat
  /-- How many arrays and objects may be open within each other. -/
  nesting : Option Nat
  deriving Repr, DecidableEq, Inhabited

variable {τ : Type}

/-- How many arrays and objects are open. -/
def Expecting.depth : Expecting τ → Nat
  | .value stack | .finished stack _ => stack.length
  | .itemOrClose stack | .nameOrClose stack | .nextName stack _ | .colon stack .. =>
    stack.length + 1

/-- What a token opens, as it is named where it is refused. -/
def Token.opened : Token τ → String
  | .openObject => "object"
  | _ => "array"

namespace Limits

/-- An interpreter without limits. -/
def unlimited : Limits := ⟨none, none⟩

variable (l : Limits)

/-- Whether a token is a whole number of too many digits. -/
def isTooLong : Token τ → Bool
  | .scalar (.int n) => l.digits.any fun most => 10 ^ most ≤ n.natAbs
  | _ => false

/-- How a token is refused that has led the machine so far. -/
def refusal? (t : Token τ) (s : Expecting τ) : Option Failure :=
  if l.isTooLong t then some .malformedDocument
  else if l.nesting.any (· < s.depth) then some (.nestedTooDeeply t.opened)
  else none

theorem refusal?_unlimited (t : Token τ) (s : Expecting τ) : unlimited.refusal? t s = none := by
  have hshort : unlimited.isTooLong t = false := by
    unfold isTooLong
    split <;> rfl
  unfold refusal?
  rw [hshort]
  rfl

/-- A refusal is that of a number or names a depth that is not allowed. -/
theorem refusal?_cases {t : Token τ} {s : Expecting τ} {e : Failure}
    (h : l.refusal? t s = some e) :
    e = .malformedDocument ∨
      ∃ most opened, l.nesting = some most ∧ e = .nestedTooDeeply opened := by
  unfold refusal? at h
  split at h
  · exact .inl (Option.some.inj h).symm
  · split at h
    · next hdeep =>
      cases hnesting : l.nesting with
      | none => simp [hnesting] at hdeep
      | some most => exact .inr ⟨most, _, rfl, (Option.some.inj h).symm⟩
    · cases h

variable [DecidableEq τ] [Wording τ]

/-- The first refusal on the way through a text, `none` if there is none or if the text goes wrong
before. The count bounds the tokens. -/
def firstRefusal? : Nat → Expecting τ → List Char → Option Failure
  | 0, _, _ => none
  | fuel + 1, s, cs =>
    match cs.dropWhile isSpace with
    | [] => none
    | c :: rest => do
      let (t, rest) ← scanToken (c :: rest)
      let s ← s.step t
      match l.refusal? t s with
      | some e => some e
      | none => firstRefusal? fuel s rest

end Limits

variable (τ) [DecidableEq τ] [Wording τ]

/-- The value that a text writes, unless a limit is met on the way. -/
def readWithin (l : Limits) (s : String) : Outcome (Json τ) :=
  match l.firstRefusal? (s.toList.length + 1) (.value [] : Expecting τ) s.toList with
  | some e => .error e
  | none => readAs τ s

variable {τ}

/-! ## What limits change -/

namespace Limits

theorem firstRefusal?_cases {l : Limits} {fuel : Nat} {s : Expecting τ} {cs : List Char}
    {e : Failure} (h : l.firstRefusal? fuel s cs = some e) :
    e = .malformedDocument ∨
      ∃ most opened, l.nesting = some most ∧ e = .nestedTooDeeply opened := by
  induction fuel generalizing s cs with
  | zero => cases h
  | succ fuel ih =>
    unfold firstRefusal? at h
    split at h
    · cases h
    · obtain ⟨⟨t, rest⟩, -, h⟩ := Option.bind_eq_some_iff.1 h
      obtain ⟨s', -, h⟩ := Option.bind_eq_some_iff.1 h
      split at h
      · next e' href =>
        cases h
        exact l.refusal?_cases href
      · exact ih h

theorem firstRefusal?_unlimited (fuel : Nat) (s : Expecting τ) (cs : List Char) :
    unlimited.firstRefusal? fuel s cs = none := by
  induction fuel generalizing s cs with
  | zero => rfl
  | succ fuel ih =>
    unfold firstRefusal?
    split
    · rfl
    · simp only [refusal?_unlimited, ih, Option.bind_eq_bind, Option.bind_fun_none]

end Limits

/-- Without limits every document is read. -/
theorem readWithin_unlimited (s : String) : readWithin τ .unlimited s = readAs τ s := by
  unfold readWithin
  rw [Limits.firstRefusal?_unlimited]

/-- Reading fails only for a text that writes no value or meets a limit. -/
theorem readWithin_eq_error {l : Limits} {s : String} {e : Failure}
    (h : readWithin τ l s = .error e) :
    e = .malformedDocument ∨
      ∃ most opened, l.nesting = some most ∧ e = .nestedTooDeeply opened := by
  unfold readWithin at h
  split at h
  · next href =>
    cases h
    exact Limits.firstRefusal?_cases href
  · unfold readAs at h
    split at h
    · cases h
    · exact .inl (Except.error.inj h).symm

/-- An array within an array is refused where only one may be open, and is malformed before that
if a number is too long. -/
example :
    readWithin String ⟨none, some 1⟩ "[12,[]" = .error (.nestedTooDeeply "array") ∧
      readWithin String ⟨some 1, some 1⟩ "[12,[]]" = .error .malformedDocument ∧
      readWithin String ⟨some 2, some 2⟩ "[12,[]]" = .ok (.array [.int 12, .array []]) :=
  ⟨rfl, rfl, rfl⟩

end CodeAtlas.Json
