import CodeAtlas.Proofs.Text.Trimmed

/-!
# Texts cut at a separator

A text that is cut at a separator determines its pieces, and the pieces the text. This file proves
what becomes of the pieces when texts are joined, and what is found when a text is cut at the last
occurrence of its separator only.
-/

namespace CodeAtlas.Text

/-! ## Pieces -/

/-- A text with a separator in it is cut there, whatever else it holds. -/
theorem cutAt_append_separator (sep : Char) (before after : List Char) :
    cutAt sep (before ++ sep :: after) = cutAt sep before ++ cutAt sep after := by
  induction before with
  | nil => simp [cutAt]
  | cons c cs ih =>
    rw [List.cons_append, cutAt, cutAt]
    split
    · rw [ih, List.cons_append]
    · rw [ih]
      cases hcut : cutAt sep cs with
      | nil => exact absurd hcut (cutAt_ne_nil sep cs)
      | cons piece pieces => rfl

theorem split_ne_nil (s : String) (sep : Char) : split s sep ≠ [] := by
  unfold split
  rw [Ne, List.map_eq_nil_iff]
  exact cutAt_ne_nil sep s.toList

/-- Texts that are cut into the same pieces are the same. -/
theorem split_injective (sep : Char) {s t : String} (h : split s sep = split t sep) : s = t := by
  have hpieces : cutAt sep s.toList = cutAt sep t.toList :=
    List.map_injective_iff.2 (fun _ _ => String.ofList_injective) h
  apply String.toList_injective
  rw [← intercalate_cutAt sep s.toList, hpieces, intercalate_cutAt]

theorem split_of_not_mem {s : String} {sep : Char} (h : sep ∉ s.toList) : split s sep = [s] := by
  unfold split
  rw [cutAt_of_not_mem h, List.map_singleton, String.ofList_toList]

theorem not_mem_of_mem_split {s piece : String} {sep : Char} (h : piece ∈ split s sep) :
    sep ∉ piece.toList := by
  obtain ⟨cs, hcs, rfl⟩ := List.mem_map.1 h
  rw [String.toList_ofList]
  exact not_mem_of_mem_cutAt hcs

/-- A piece is cut no further. -/
theorem split_of_mem_split {s piece : String} {sep : Char} (h : piece ∈ split s sep) :
    split piece sep = [piece] :=
  split_of_not_mem (not_mem_of_mem_split h)

theorem join_cons_cons (word part next : String) (rest : List String) :
    join word (part :: next :: rest) = part ++ word ++ join word (next :: rest) := by
  unfold join
  rw [String.intercalate_cons_cons]

theorem join_concat (word : String) {parts : List String} (h : parts ≠ []) (last : String) :
    join word (parts ++ [last]) = join word parts ++ word ++ last := by
  induction parts with
  | nil => exact absurd rfl h
  | cons part rest ih =>
    cases rest with
    | nil => simp [join]
    | cons next rest =>
      rw [List.cons_append, List.cons_append, join_cons_cons, ← List.cons_append,
        ih (List.cons_ne_nil _ _), join_cons_cons]
      simp only [String.append_assoc]

theorem toList_dot : ".".toList = ['.'] := rfl

section Separator

variable {sep : Char} {word : String} (hword : word.toList = [sep])
include hword

theorem split_append (s t : String) :
    split (s ++ word ++ t) sep = split s sep ++ split t sep := by
  unfold split
  rw [String.append_assoc, String.toList_append, String.toList_append, hword,
    List.singleton_append, cutAt_append_separator, List.map_append]

/-- What is joined by separators is cut at these and at those that were there before. -/
theorem split_join {part : String} {parts : List String} :
    split (join word (part :: parts)) sep = (part :: parts).flatMap fun p => split p sep := by
  induction parts generalizing part with
  | nil => simp [join]
  | cons next rest ih =>
    rw [join_cons_cons, split_append hword, ih, List.flatMap_cons (x := part)]

/-- The pieces of a text make the text when they are joined. -/
theorem join_split (s : String) : join word (split s sep) = s := by
  cases hpieces : split s sep with
  | nil => exact absurd hpieces (split_ne_nil s sep)
  | cons piece pieces =>
    refine split_injective sep ((split_join hword).trans ?_)
    rw [← hpieces, List.flatMap_congr fun p hp => split_of_mem_split hp, List.flatMap_singleton']

/-- Cutting parts further does not show when they are joined again. -/
theorem join_flatMap_split (parts : List String) :
    join word (parts.flatMap fun p => split p sep) = join word parts := by
  cases parts with
  | nil => rfl
  | cons part parts => rw [← split_join hword, join_split hword]

/-- Parts without separators are found again in the text that joins them. -/
theorem split_join_of_not_mem {part : String} {parts : List String}
    (h : ∀ p ∈ part :: parts, sep ∉ p.toList) :
    split (join word (part :: parts)) sep = part :: parts := by
  rw [split_join hword, List.flatMap_congr fun p hp => split_of_not_mem (h p hp),
    List.flatMap_singleton']

/-- Parts that are not empty and hold no separators are determined by the text that joins them. -/
theorem join_injective {parts others : List String}
    (hparts : ∀ p ∈ parts, p ≠ "" ∧ sep ∉ p.toList)
    (hothers : ∀ p ∈ others, p ≠ "" ∧ sep ∉ p.toList) (h : join word parts = join word others) :
    parts = others := by
  have hcut {ps : List String} (hps : ∀ p ∈ ps, p ≠ "" ∧ sep ∉ p.toList) :
      ps = (split (join word ps) sep).filter (· ≠ "") := by
    cases ps with
    | nil => rfl
    | cons p ps =>
      rw [split_join_of_not_mem hword fun q hq => (hps q hq).2, List.filter_eq_self.2]
      exact fun q hq => decide_eq_true (hps q hq).1
  rw [hcut hparts, hcut hothers, h]

end Separator

/-- Putting a word for a character joins the pieces between the characters by the word. -/
theorem replaceChar_eq_join (s : String) (old : Char) (new : String) :
    replaceChar s old new = join new (split s old) := by
  have hmain (cs : List Char) : (cs.flatMap fun c => if c = old then new.toList else [c]) =
      new.toList.intercalate (cutAt old cs) := by
    induction cs with
    | nil => simp [cutAt]
    | cons c rest ih =>
      rw [List.flatMap_cons, ih, cutAt]
      cases hcut : cutAt old rest with
      | nil => exact absurd hcut (cutAt_ne_nil old rest)
      | cons piece pieces =>
        split
        · rw [List.intercalate_cons_cons, List.nil_append]
        · cases pieces <;> simp [List.intercalate]
  refine String.toList_injective ?_
  unfold replaceChar join split
  rw [String.toList_ofList, hmain, String.toList_intercalate, List.map_map]
  exact congrArg _ (List.map_id'' (fun cs => String.toList_ofList) _).symm

/-! ## The last separator -/

theorem findSplit_singleton_eq_none {sep : Char} {cs : List Char} :
    findSplit [sep] cs = none ↔ sep ∉ cs := by
  induction cs with
  | nil => simp [findSplit]
  | cons c rest ih =>
    rw [findSplit, List.isPrefixOf_cons_cons, List.isPrefixOf_nil_left, Bool.and_true]
    by_cases hc : sep = c
    · simp [hc]
    · rw [if_neg (by simpa using hc), Option.map_eq_none_iff, ih, List.mem_cons, not_or,
        and_iff_right hc]

/-- The first occurrence of a character is the one with none in front of it. -/
theorem findSplit_singleton_eq_some {sep : Char} {cs before after : List Char} :
    findSplit [sep] cs = some (before, after) ↔ cs = before ++ sep :: after ∧ sep ∉ before := by
  induction cs generalizing before with
  | nil => simp [findSplit]
  | cons c rest ih =>
    rw [findSplit, List.isPrefixOf_cons_cons, List.isPrefixOf_nil_left, Bool.and_true]
    by_cases hc : sep = c
    · rw [if_pos (by simpa using hc), hc]
      cases before with
      | nil => simp
      | cons b bs => simp +contextual
    · rw [if_neg (by simpa using hc), Option.map_eq_some_iff]
      cases before with
      | nil => simp [Ne.symm hc]
      | cons b bs => grind

section Separator

variable {sep : Char} {word : String} (hword : word.toList = [sep])
include hword

theorem splitLast?_eq_none {s : String} : splitLast? s word = none ↔ sep ∉ s.toList := by
  unfold splitLast?
  rw [Option.map_eq_none_iff, hword, List.reverse_singleton, findSplit_singleton_eq_none,
    List.mem_reverse]

/-- The last occurrence of a separator is the one with none behind it. -/
theorem splitLast?_eq_some {s before after : String} :
    splitLast? s word = some (before, after) ↔
      s = before ++ word ++ after ∧ sep ∉ after.toList := by
  unfold splitLast?
  rw [Option.map_eq_some_iff, hword, List.reverse_singleton]
  constructor
  · rintro ⟨⟨ending, start⟩, hfound, heq⟩
    obtain ⟨hs, hending⟩ := findSplit_singleton_eq_some.1 hfound
    cases heq
    refine ⟨String.toList_injective ?_, by simpa using hending⟩
    rw [← List.reverse_reverse s.toList, hs]
    simp [hword]
  · rintro ⟨rfl, hafter⟩
    refine ⟨(after.toList.reverse, before.toList.reverse), findSplit_singleton_eq_some.2 ?_, ?_⟩
    · simp [hword, hafter]
    · simp

/-- What stands before the last separator has all pieces but the last one. -/
theorem split_of_splitLast? {s before after : String}
    (h : splitLast? s word = some (before, after)) :
    split s sep = split before sep ++ [after] := by
  obtain ⟨rfl, hafter⟩ := (splitLast?_eq_some hword).1 h
  rw [split_append hword, split_of_not_mem hafter]

end Separator

/-! ## Endings -/

/-- A text ends with another one if that is what stands behind some beginning. -/
theorem endsWith_iff {s ending : String} :
    endsWith s ending = true ↔ ∃ start, s = start ++ ending := by
  unfold endsWith
  rw [List.isPrefixOf_iff_prefix, List.reverse_prefix]
  constructor
  · rintro ⟨start, hstart⟩
    refine ⟨String.ofList start, String.toList_injective ?_⟩
    rw [String.toList_append, String.toList_ofList, hstart]
  · rintro ⟨start, rfl⟩
    exact ⟨start.toList, (String.toList_append).symm⟩

theorem dropLastChars_append (s ending : String) :
    dropLastChars (s ++ ending) ending.length = s := by
  unfold dropLastChars
  rw [String.toList_append, List.length_append, String.length_toList (s := ending),
    Nat.add_sub_cancel, List.take_left, String.ofList_toList]

end CodeAtlas.Text
