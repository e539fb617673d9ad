/-!
# Sorted texts

Texts are ordered by code point. Sorting is stable and keeps repetitions; a sorted set
keeps one of each.
-/

namespace CodeAtlas

/-- Puts an item before the first one that it may precede. -/
def insertBy {α : Type} (before : α → α → Bool) (x : α) : List α → List α
  | [] => [x]
  | y :: ys => if before x y then x :: y :: ys else y :: insertBy before x ys

/-- The items in order; items that may stand either way keep their order. -/
def sortBy {α : Type} (before : α → α → Bool) : List α → List α
  | [] => []
  | x :: xs => insertBy before x (sortBy before xs)

/-- Inserting adds exactly the inserted item. -/
theorem insertBy_perm {α : Type} (before : α → α → Bool) (x : α) (xs : List α) :
    (insertBy before x xs).Perm (x :: xs) := by
  induction xs with
  | nil => exact .refl _
  | cons y ys ih =>
    rw [insertBy]
    split
    · exact .refl _
    · exact (ih.cons y).trans (.swap x y ys)

/-- Sorting keeps every item with its number of occurrences. -/
theorem sortBy_perm {α : Type} (before : α → α → Bool) (xs : List α) :
    (sortBy before xs).Perm xs := by
  induction xs with
  | nil => exact .refl _
  | cons x xs ih => exact (insertBy_perm before x _).trans (ih.cons x)

namespace Text

/-- The texts in ascending order. -/
def sorted (xs : List String) : List String := sortBy (fun a b => decide (a ≤ b)) xs

/-- A list without neighbours that are equal. -/
def dropRepeats : List String → List String
  | a :: b :: rest => if a = b then dropRepeats (b :: rest) else a :: dropRepeats (b :: rest)
  | xs => xs

/-- The texts in ascending order, each once. -/
def sortedSet (xs : List String) : List String := dropRepeats (sorted xs)

/-- Sorting keeps every text with its number of occurrences. -/
theorem sorted_perm (xs : List String) : (sorted xs).Perm xs := sortBy_perm _ xs

end Text

end CodeAtlas
