/-!
# Pieces of a text

Cutting a text at a separator, joining the pieces again, and looking for one text inside
another. All functions work on lists of characters; the ones on `String` wrap them.
-/

namespace CodeAtlas.Text

/-- The pieces between the occurrences of a separator; there is always at least one. -/
def cutAt (sep : Char) : List Char → List (List Char)
  | [] => [[]]
  | c :: rest =>
    if c = sep then [] :: cutAt sep rest
    else match cutAt sep rest with
      | [] => [[c]]
      | piece :: pieces => (c :: piece) :: pieces

/-- The pieces of a text between the occurrences of a separator. -/
def split (s : String) (sep : Char) : List String := (cutAt sep s.toList).map String.ofList

/-- Whether the first text begins with the second. -/
def startsWith (s start : String) : Bool := start.toList.isPrefixOf s.toList

/-- Whether the first text ends with the second. -/
def endsWith (s ending : String) : Bool := ending.toList.reverse.isPrefixOf s.toList.reverse

/-- What follows the first occurrence of `word` and what stands before it. -/
def findSplit (word : List Char) : List Char → Option (List Char × List Char)
  | [] => if word.isEmpty then some ([], []) else none
  | c :: rest =>
    if word.isPrefixOf (c :: rest) then some ([], (c :: rest).drop word.length)
    else (findSplit word rest).map fun (before, after) => (c :: before, after)

/-- What stands before and after the first occurrence of `word`. -/
def splitFirst? (s word : String) : Option (String × String) :=
  (findSplit word.toList s.toList).map fun (a, b) => (String.ofList a, String.ofList b)

/-- What stands before and after the last occurrence of `word`. -/
def splitLast? (s word : String) : Option (String × String) :=
  (findSplit word.toList.reverse s.toList.reverse).map fun (after, before) =>
    (String.ofList before.reverse, String.ofList after.reverse)

/-- Whether `word` occurs in the text. -/
def occursIn (word s : String) : Bool := (findSplit word.toList s.toList).isSome

/-- What follows the last separator, or the whole text. -/
def afterLast (s word : String) : String :=
  match splitLast? s word with
  | some (_, after) => after
  | none => s

/-- What stands before the last separator, or the whole text. -/
def beforeLast (s word : String) : String :=
  match splitLast? s word with
  | some (before, _) => before
  | none => s

/-- What stands before the first separator, or the whole text. -/
def beforeFirst (s word : String) : String :=
  match splitFirst? s word with
  | some (before, _) => before
  | none => s

/-- The text with every occurrence of a character replaced by a text. -/
def replaceChar (s : String) (old : Char) (new : String) : String :=
  String.ofList (s.toList.flatMap fun c => if c = old then new.toList else [c])

/-- The text without its first `n` characters. -/
def dropChars (s : String) (n : Nat) : String := String.ofList (s.toList.drop n)

/-- The text without its last `n` characters. -/
def dropLastChars (s : String) (n : Nat) : String :=
  String.ofList (s.toList.take (s.toList.length - n))

/-- The texts joined with a separator between neighbours. -/
def join (sep : String) (parts : List String) : String := sep.intercalate parts

/-- Cutting never yields an empty list of pieces. -/
theorem cutAt_ne_nil (sep : Char) (cs : List Char) : cutAt sep cs ≠ [] := by
  cases cs with
  | nil => simp [cutAt]
  | cons c rest =>
    simp only [cutAt]
    split
    · simp
    · split <;> simp

/-- Joining the pieces with the separator gives the text back. -/
theorem intercalate_cutAt (sep : Char) (cs : List Char) :
    [sep].intercalate (cutAt sep cs) = cs := by
  induction cs with
  | nil => simp [cutAt, List.intercalate]
  | cons c rest ih =>
    simp only [cutAt]
    split
    · next h =>
      subst h
      cases hp : cutAt c rest with
      | nil => exact absurd hp (cutAt_ne_nil c rest)
      | cons p ps =>
        rw [hp] at ih
        simp [List.intercalate] at ih ⊢
        exact ih
    · cases hp : cutAt sep rest with
      | nil => exact absurd hp (cutAt_ne_nil sep rest)
      | cons p ps =>
        rw [hp] at ih
        cases ps with
        | nil => simpa [List.intercalate] using ih
        | cons q qs =>
          simp [List.intercalate] at ih ⊢
          exact ih

/-- No piece holds the separator. -/
theorem not_mem_of_mem_cutAt {sep : Char} {cs piece : List Char}
    (h : piece ∈ cutAt sep cs) : sep ∉ piece := by
  induction cs generalizing piece with
  | nil =>
    simp [cutAt] at h
    simp [h]
  | cons c rest ih =>
    simp only [cutAt] at h
    split at h
    · cases List.mem_cons.1 h with
      | inl he => simp [he]
      | inr hr => exact ih hr
    · next hc =>
      cases hp : cutAt sep rest with
      | nil => exact absurd hp (cutAt_ne_nil sep rest)
      | cons p ps =>
        rw [hp] at h ih
        cases List.mem_cons.1 h with
        | inl he =>
          subst he
          have hnot : sep ∉ p := ih (by simp)
          simp only [List.mem_cons, not_or]
          exact ⟨fun e => hc e.symm, hnot⟩
        | inr hr => exact ih (by simp [hr])

end CodeAtlas.Text
