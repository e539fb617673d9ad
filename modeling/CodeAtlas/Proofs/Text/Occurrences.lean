import CodeAtlas.Proofs.Text.Split

/-!
# Words beside a separator

A word with a separator behind it occurs first where the first piece ends with the word, and a word
with a separator in front of it occurs last where the last piece begins with the word. So a search
for letters is a search among pieces, as long as the word itself holds no separator.
-/

namespace CodeAtlas.Text

/-! ## The first occurrence -/

/-- What stands in front of the first separator is determined. -/
theorem eq_of_append_separator {sep : Char} {piece other rest after : List Char}
    (hpiece : sep ∉ piece) (hother : sep ∉ other)
    (h : piece ++ sep :: rest = other ++ sep :: after) : piece = other := by
  have hcut := congrArg (cutAt sep) h
  rw [cutAt_append_cons hpiece, cutAt_append_cons hother] at hcut
  exact (List.cons.inj hcut).1

/-- A word in front of a separator begins a text only if it is the text's first piece. -/
theorem eq_of_isPrefixOf_separator {sep : Char} {word piece rest : List Char} (hword : sep ∉ word)
    (hpiece : sep ∉ piece) (h : (word ++ [sep]).isPrefixOf (piece ++ sep :: rest) = true) :
    word = piece := by
  obtain ⟨after, hafter⟩ := List.isPrefixOf_iff_prefix.1 h
  have htext : word ++ sep :: after = piece ++ sep :: rest := by simpa using hafter
  exact eq_of_append_separator hword hpiece htext

theorem findSplit_of_suffix {sep : Char} {start word : List Char} (h : sep ∉ start ++ word)
    (rest : List Char) :
    findSplit (word ++ [sep]) (start ++ word ++ sep :: rest) = some (start, rest) := by
  induction start with
  | nil =>
    have hhere : (word ++ [sep]).isPrefixOf (word ++ sep :: rest) = true :=
      List.isPrefixOf_iff_prefix.2 ⟨rest, by simp⟩
    rw [List.nil_append]
    cases word with
    | nil => simp [findSplit]
    | cons w ws =>
      have hcons : w :: ws ++ sep :: rest = w :: (ws ++ sep :: rest) := rfl
      rw [hcons] at hhere ⊢
      rw [findSplit, if_pos hhere]
      simp
  | cons c cs ih =>
    have hhere : ¬(word ++ [sep]).isPrefixOf (c :: cs ++ word ++ sep :: rest) = true := by
      intro hprefix
      have heq := eq_of_isPrefixOf_separator (fun hmem => h (List.mem_append_right _ hmem)) h
        hprefix
      have hlength := congrArg List.length heq
      simp only [List.length_append, List.length_cons] at hlength
      omega
    rw [List.cons_append, List.cons_append] at hhere ⊢
    rw [findSplit, if_neg hhere, ih fun hmem => h (List.mem_cons_of_mem c hmem)]
    rfl

theorem findSplit_of_not_suffix {sep : Char} {word piece : List Char} (hword : sep ∉ word)
    (hpiece : sep ∉ piece) (h : ¬word <:+ piece) (rest : List Char) :
    findSplit (word ++ [sep]) (piece ++ sep :: rest) =
      (findSplit (word ++ [sep]) rest).map fun found => (piece ++ sep :: found.1, found.2) := by
  have hhere : ¬(word ++ [sep]).isPrefixOf (piece ++ sep :: rest) = true := fun hprefix =>
    h (eq_of_isPrefixOf_separator hword hpiece hprefix ▸ List.suffix_rfl)
  induction piece with
  | nil =>
    rw [List.nil_append] at hhere ⊢
    rw [findSplit, if_neg hhere]
    rfl
  | cons c cs ih =>
    have hcs : sep ∉ cs := fun hmem => hpiece (List.mem_cons_of_mem c hmem)
    have hsuffix : ¬word <:+ cs := fun hcs => h (hcs.trans (List.suffix_cons c cs))
    have hthere : ¬(word ++ [sep]).isPrefixOf (cs ++ sep :: rest) = true := fun hprefix =>
      hsuffix (eq_of_isPrefixOf_separator hword hcs hprefix ▸ List.suffix_rfl)
    rw [List.cons_append] at hhere ⊢
    rw [findSplit, if_neg hhere, ih hcs hsuffix hthere, Option.map_map]
    rfl

theorem findSplit_of_not_mem {sep : Char} {piece : List Char} (word : List Char)
    (h : sep ∉ piece) : findSplit (word ++ [sep]) piece = none := by
  induction piece with
  | nil => simp [findSplit]
  | cons c cs ih =>
    have hhere : ¬(word ++ [sep]).isPrefixOf (c :: cs) = true := by
      rw [List.isPrefixOf_iff_prefix]
      rintro ⟨after, hafter⟩
      exact h (hafter ▸ by simp)
    rw [findSplit, if_neg hhere, ih fun hmem => h (List.mem_cons_of_mem c hmem)]
    rfl

/-! ## Occurrences in texts -/

section Separator

variable {sep : Char} {word : String} (hword : word.toList = [sep])
include hword

/-- The first piece that ends with a word is where the word and a separator are found first. -/
theorem splitFirst?_of_endsWith {start w : String} (h : sep ∉ (start ++ w).toList)
    (rest : String) :
    splitFirst? (start ++ w ++ word ++ rest) (w ++ word) = some (start, rest) := by
  rw [String.toList_append] at h
  unfold splitFirst?
  simp only [String.toList_append, hword]
  rw [List.append_assoc, List.singleton_append, findSplit_of_suffix h]
  simp

theorem splitFirst?_of_not_endsWith {piece w : String} (hw : sep ∉ w.toList)
    (hpiece : sep ∉ piece.toList) (h : ¬endsWith piece w = true) (rest : String) :
    splitFirst? (piece ++ word ++ rest) (w ++ word) =
      (splitFirst? rest (w ++ word)).map fun found => (piece ++ word ++ found.1, found.2) := by
  have hsuffix : ¬w.toList <:+ piece.toList := fun hsuffix =>
    h (List.isPrefixOf_iff_prefix.2 (List.reverse_prefix.2 hsuffix))
  unfold splitFirst?
  simp only [String.toList_append, hword]
  rw [List.append_assoc, List.singleton_append, findSplit_of_not_suffix hw hpiece hsuffix,
    Option.map_map, Option.map_map]
  refine congrArg (fun f => Option.map f _) (funext fun found => ?_)
  refine Prod.ext (String.toList_injective ?_) rfl
  simp [hword]

theorem splitFirst?_of_not_mem {piece : String} (h : sep ∉ piece.toList) (w : String) :
    splitFirst? piece (w ++ word) = none := by
  unfold splitFirst?
  rw [String.toList_append, hword, findSplit_of_not_mem _ h]
  rfl

/-- The last piece that begins with a word is where a separator and the word are found last. -/
theorem splitLast?_of_startsWith {w ending : String} (h : sep ∉ (w ++ ending).toList)
    (start : String) :
    splitLast? (start ++ word ++ (w ++ ending)) (word ++ w) = some (start, ending) := by
  have hreverse : sep ∉ ending.toList.reverse ++ w.toList.reverse := by
    simpa [or_comm] using h
  unfold splitLast?
  simp only [String.toList_append, hword, List.reverse_append, List.reverse_singleton]
  rw [List.singleton_append, findSplit_of_suffix hreverse]
  simp

theorem splitLast?_of_not_startsWith {piece w : String} (hw : sep ∉ w.toList)
    (hpiece : sep ∉ piece.toList) (h : ¬startsWith piece w = true) (start : String) :
    splitLast? (start ++ word ++ piece) (word ++ w) =
      (splitLast? start (word ++ w)).map fun found => (found.1, found.2 ++ word ++ piece) := by
  have hsuffix : ¬w.toList.reverse <:+ piece.toList.reverse := fun hsuffix =>
    h (List.isPrefixOf_iff_prefix.2 (List.reverse_suffix.1 hsuffix))
  unfold splitLast?
  simp only [String.toList_append, hword, List.reverse_append, List.reverse_singleton]
  rw [List.singleton_append,
    findSplit_of_not_suffix (by simpa using hw) (by simpa using hpiece) hsuffix,
    Option.map_map, Option.map_map]
  refine congrArg (fun f => Option.map f _) (funext fun found => ?_)
  refine Prod.ext rfl (String.toList_injective ?_)
  simp [hword]

theorem splitLast?_of_not_mem {piece : String} (h : sep ∉ piece.toList) (w : String) :
    splitLast? piece (word ++ w) = none := by
  unfold splitLast?
  rw [String.toList_append, hword, List.reverse_append, List.reverse_singleton,
    findSplit_of_not_mem _ (by simpa using h)]
  rfl

end Separator

end CodeAtlas.Text
