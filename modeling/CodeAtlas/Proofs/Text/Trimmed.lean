import CodeAtlas.Text.CharSet
import CodeAtlas.Text.Pieces
import Mathlib.Data.List.DropRight

/-!
# Trimmed texts and their pieces

A text is trimmed if it neither begins nor ends with white space. Trimming makes a text trimmed
and leaves a trimmed one alone. A text that was joined from pieces is cut into the same pieces
again, as long as none of them holds the separator.
-/

namespace CodeAtlas.Text

/-! ## Trimming -/

/-- Whether a text neither begins nor ends with white space. -/
structure Trimmed (cs : List Char) : Prop where
  head : ∀ c ∈ cs.head?, isBlank c = false
  last : ∀ c ∈ cs.getLast?, isBlank c = false

theorem dropBlankEnd_eq (cs : List Char) : dropBlankEnd cs = cs.rdropWhile isBlank := rfl

/-- Trimming takes nothing but white space, and only off the ends. -/
theorem trimChars_infix (cs : List Char) : trimChars cs <:+: cs :=
  (List.rdropWhile_prefix isBlank (dropBlankStart cs)).isInfix.trans
    (List.dropWhile_suffix isBlank).isInfix

theorem trimmed_trimChars (cs : List Char) : Trimmed (trimChars cs) where
  head := by
    intro c hc
    -- what is left begins as the text without its leading white space does
    have hstart : c ∈ (dropBlankStart cs).head? := by
      obtain ⟨dropped, hdropped⟩ := List.rdropWhile_prefix isBlank (dropBlankStart cs)
      rw [trimChars, dropBlankEnd_eq] at hc
      rw [← hdropped, List.head?_append, Option.mem_def.1 hc]
      rfl
    have hhead := List.head?_dropWhile_not isBlank cs
    rw [dropBlankStart, Option.mem_def] at hstart
    rw [hstart] at hhead
    simpa using hhead
  last := by
    intro c hc
    obtain ⟨hne, hlast⟩ := List.mem_getLast?_eq_getLast hc
    have hblank := List.rdropWhile_last_not isBlank (dropBlankStart cs) hne
    rw [hlast]
    exact Bool.eq_false_iff.2 hblank

/-- Trimming leaves a trimmed text alone. -/
theorem Trimmed.trimChars_eq {cs : List Char} (h : Trimmed cs) : trimChars cs = cs := by
  have hstart : dropBlankStart cs = cs := by
    rw [dropBlankStart, List.dropWhile_eq_self_iff]
    intro hne
    have hmem : cs[0] ∈ cs.head? := by simp [List.head?_eq_getElem?]
    simp [h.head _ hmem]
  have hend : dropBlankEnd cs = cs := by
    rw [dropBlankEnd_eq, List.rdropWhile_eq_self_iff]
    intro hne
    simp [h.last _ (List.getLast?_eq_getLast_of_ne_nil hne)]
  rw [trimChars, hstart, hend]

/-- What begins with a character other than white space and goes on trimmed is trimmed. -/
theorem Trimmed.cons {c : Char} {cs : List Char} (h : Trimmed cs) (hc : isBlank c = false) :
    Trimmed (c :: cs) where
  head := by simpa using hc
  last := by
    cases cs with
    | nil => simpa using hc
    | cons d ds => simpa using h.last

/-- Nothing is left exactly of white space. -/
theorem trimChars_eq_nil_iff (cs : List Char) : trimChars cs = [] ↔ ∀ c ∈ cs, isBlank c = true := by
  rw [trimChars, dropBlankEnd_eq, List.rdropWhile_eq_nil_iff]
  constructor
  · intro h
    by_cases hstart : dropBlankStart cs = []
    · exact List.dropWhile_eq_nil_iff.1 hstart
    · have hfirst : isBlank ((dropBlankStart cs).head hstart) = false :=
        List.head_dropWhile_not isBlank hstart
      simp [h _ (List.head_mem hstart)] at hfirst
  · intro h c hc
    exact h c ((List.dropWhile_sublist isBlank).subset hc)

/-! ## Joining -/

/-- Joined pieces are cut apart again where they were joined. -/
theorem cutAt_append_cons {sep : Char} {piece : List Char} (h : sep ∉ piece) (rest : List Char) :
    cutAt sep (piece ++ sep :: rest) = piece :: cutAt sep rest := by
  induction piece with
  | nil => simp [cutAt]
  | cons c cs ih =>
    simp only [List.mem_cons, not_or] at h
    simp [cutAt, Ne.symm h.1, ih h.2]

theorem cutAt_of_not_mem {sep : Char} {piece : List Char} (h : sep ∉ piece) :
    cutAt sep piece = [piece] := by
  induction piece with
  | nil => rfl
  | cons c cs ih =>
    simp only [List.mem_cons, not_or] at h
    simp [cutAt, Ne.symm h.1, ih h.2]

/-- Pieces without the separator are found again in the text that joins them. -/
theorem cutAt_intercalate {sep : Char} {piece : List Char} {pieces : List (List Char)}
    (h : ∀ p ∈ piece :: pieces, sep ∉ p) :
    cutAt sep ([sep].intercalate (piece :: pieces)) = piece :: pieces := by
  induction pieces generalizing piece with
  | nil => simpa using cutAt_of_not_mem (h piece (by simp))
  | cons next rest ih =>
    have hrest : cutAt sep ([sep].intercalate (next :: rest)) = next :: rest :=
      ih fun p hp => h p (List.mem_cons_of_mem _ hp)
    rw [List.intercalate_cons_cons, List.append_assoc, List.singleton_append,
      cutAt_append_cons (h piece (by simp)), hrest]

/-- A text that is joined from trimmed pieces, each of which holds something, is trimmed. -/
theorem trimmed_intercalate {sep piece : List Char} {pieces : List (List Char)}
    (h : ∀ p ∈ piece :: pieces, Trimmed p ∧ p ≠ []) :
    Trimmed (sep.intercalate (piece :: pieces)) ∧ sep.intercalate (piece :: pieces) ≠ [] := by
  induction pieces generalizing piece with
  | nil => simpa using h piece (by simp)
  | cons next rest ih =>
    obtain ⟨hpiece, hne⟩ := h piece (by simp)
    obtain ⟨hrest, hrestne⟩ :
        Trimmed (sep.intercalate (next :: rest)) ∧ sep.intercalate (next :: rest) ≠ [] :=
      ih fun p hp => h p (List.mem_cons_of_mem _ hp)
    rw [List.intercalate_cons_cons]
    refine ⟨⟨?_, ?_⟩, by simp [hne]⟩
    · rw [List.append_assoc, List.head?_append_of_ne_nil _ hne]
      exact hpiece.head
    · rw [List.getLast?_append_of_ne_nil _ hrestne]
      exact hrest.last

end CodeAtlas.Text
