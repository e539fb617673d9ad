import CodeAtlas.Proofs.Text.Trimmed
import CodeAtlas.Text.CharSet
import CodeAtlas.Text.Lines
import CodeAtlas.Text.WordSet

/-!
# Runs of characters

A reader that takes the longest run of characters of one kind splits a text at the only place where
such a run ends. White space is apart from digits and from the characters of words, and a text
that is joined from lines has these lines.
-/

namespace CodeAtlas.Text

/-- A text of characters of one kind, perhaps empty. -/
structure Run (p : Char → Bool) where
  text : List Char
  all : ∀ c ∈ text, p c = true

/-- A text of characters of one kind that is not empty. -/
structure Piece (p : Char → Bool) extends Run p where
  ne_nil : text ≠ []

/-- A run from a text that is checked. -/
def Run.ofText {p : Char → Bool} (s : String) (h : s.toList.all p = true) : Run p :=
  ⟨s.toList, List.all_eq_true.1 h⟩

/-- A run from a text that is checked and not empty. -/
def Piece.ofText {p : Char → Bool} (s : String) (h : s.toList.all p = true)
    (hne : s.toList ≠ []) : Piece p :=
  ⟨.ofText s h, hne⟩

/-- A text at which a run ends: it is empty or begins with a character of another kind. -/
def Stops (p : Char → Bool) (cs : List Char) : Prop := ∀ c ∈ cs.head?, p c = false

section Runs

variable {p : Char → Bool} {cs run rest : List Char}

instance : Decidable (Stops p cs) := by
  unfold Stops
  cases cs.head? with
  | none => exact isTrue (by simp)
  | some c => exact decidable_of_iff (p c = false) (by simp)

theorem stops_nil : Stops p [] := by simp [Stops]

theorem stops_cons {c : Char} : Stops p (c :: cs) ↔ p c = false := by simp [Stops]

theorem takeWhile_of_stops (h : Stops p cs) : cs.takeWhile p = [] := by
  cases cs with
  | nil => rfl
  | cons c rest => simp [stops_cons.1 h]

/-- A run of another kind ends a run. -/
theorem Piece.stops {q : Char → Bool} (f : Piece q) (h : ∀ c, q c = true → p c = false)
    (rest : List Char) : Stops p (f.text ++ rest) := by
  intro c hc
  rw [List.head?_append_of_ne_nil _ f.ne_nil] at hc
  exact h c (f.all c (List.mem_of_mem_head? hc))

theorem Piece.head?_ne (f : Piece p) {c : Char} (h : p c = false) (rest : List Char) :
    (f.text ++ rest).head? ≠ some c := by
  intro hhead
  rw [List.head?_append_of_ne_nil _ f.ne_nil] at hhead
  exact absurd (f.all c (List.mem_of_mem_head? hhead)) (by simp [h])

/-- The longest run at the start of a text is the one at whose end the text stops. -/
theorem takeWhile_dropWhile_iff :
    cs.takeWhile p = run ∧ cs.dropWhile p = rest ↔
      cs = run ++ rest ∧ (∀ c ∈ run, p c = true) ∧ Stops p rest := by
  constructor
  · rintro ⟨rfl, rfl⟩
    refine ⟨(List.takeWhile_append_dropWhile).symm, fun c hc => List.mem_takeWhile_imp hc, ?_⟩
    intro c hc
    have hhead := List.head?_dropWhile_not p cs
    rw [Option.mem_def.1 hc] at hhead
    simpa using hhead
  · rintro ⟨rfl, hrun, hstops⟩
    rw [List.takeWhile_append_of_pos hrun, List.dropWhile_append_of_pos hrun]
    cases rest with
    | nil => simp
    | cons c rest =>
      have hc := stops_cons.1 hstops
      simp [hc]

theorem takeWhile_append_of_stops (hrun : ∀ c ∈ run, p c = true) (hrest : Stops p rest) :
    (run ++ rest).takeWhile p = run :=
  (takeWhile_dropWhile_iff.2 ⟨rfl, hrun, hrest⟩).1

theorem dropWhile_append_of_stops (hrun : ∀ c ∈ run, p c = true) (hrest : Stops p rest) :
    (run ++ rest).dropWhile p = rest :=
  (takeWhile_dropWhile_iff.2 ⟨rfl, hrun, hrest⟩).2

/-- Every text begins with a longest run. -/
theorem exists_run (p : Char → Bool) (cs : List Char) :
    ∃ (run : Run p) (rest : List Char), cs = run.text ++ rest ∧ Stops p rest := by
  obtain ⟨hsplit, hrun, hstops⟩ := takeWhile_dropWhile_iff.1 ⟨Eq.refl (cs.takeWhile p), rfl⟩
  exact ⟨⟨_, hrun⟩, _, hsplit, hstops⟩

/-- A text has one split into a run and a rest at which the run ends. -/
theorem run_unique {other after : List Char} (h : run ++ rest = other ++ after)
    (hrun : ∀ c ∈ run, p c = true) (hrest : Stops p rest) (hother : ∀ c ∈ other, p c = true)
    (hafter : Stops p after) : run = other ∧ rest = after := by
  obtain ⟨htake, hdrop⟩ := takeWhile_dropWhile_iff.2 ⟨rfl, hrun, hrest⟩
  obtain ⟨htake', hdrop'⟩ := takeWhile_dropWhile_iff.2 ⟨rfl, hother, hafter⟩
  exact ⟨htake.symm.trans (h ▸ htake'), hdrop.symm.trans (h ▸ hdrop')⟩

end Runs

/-! ## White space -/

/-- A set that holds none of the few white space characters is apart from white space. -/
theorem contains_eq_false_of_isBlank {s : CharSet}
    (h : ∀ r ∈ blankSet.ranges, ∀ i < 11, r.1 + i ≤ r.2 → inRanges (r.1 + i) s.ranges = false)
    {c : Char} (hc : isBlank c = true) : s.contains c = false := by
  obtain ⟨r, hr, hlow, hhigh⟩ := exists_range_of_inRanges hc
  have hwidth : ∀ r ∈ blankSet.ranges, r.2 < r.1 + 11 := by decide
  have hinside := h r hr (c.toNat - r.1) (by have := hwidth r hr; omega) (by omega)
  rwa [Nat.add_sub_cancel' hlow] at hinside

theorem isWord_eq_false_of_isBlank {c : Char} (h : isBlank c = true) : isWord c = false :=
  contains_eq_false_of_isBlank (by decide +kernel) h

theorem isDigit_eq_false_of_isBlank {c : Char} (h : isBlank c = true) : isDigit c = false :=
  contains_eq_false_of_isBlank (by decide +kernel) h

/-- The white space at the end of a text is what follows its last other character. -/
theorem dropBlankEnd_append {cs trailing : List Char} (h : ∀ c ∈ trailing, isBlank c = true)
    (hcs : ∀ c ∈ cs.getLast?, isBlank c = false) : dropBlankEnd (cs ++ trailing) = cs := by
  have hstops : Stops isBlank cs.reverse := by
    intro c hc
    exact hcs c (by simpa using hc)
  rw [dropBlankEnd, List.reverse_append,
    dropWhile_append_of_stops (fun c hc => h c (by simpa using hc)) hstops, List.reverse_reverse]

theorem exists_trailing (cs : List Char) : ∃ trailing : Run isBlank,
    cs = dropBlankEnd cs ++ trailing.text := by
  refine ⟨⟨cs.rtakeWhile isBlank, ?_⟩, ?_⟩
  · intro c hc
    exact List.mem_rtakeWhile_imp hc
  · rw [dropBlankEnd_eq, List.rdropWhile_append_rtakeWhile]

/-! ## Numbers -/

theorem isDigit_of_mem_toDigits {n : Nat} {c : Char} (h : c ∈ Nat.toDigits 10 n) :
    isDigit c = true := by
  have hdigit := Nat.isDigit_of_mem_toDigits (by decide) (by decide) h
  simp only [Char.isDigit, Bool.and_eq_true, decide_eq_true_eq, ge_iff_le,
    UInt32.le_iff_toNat_le] at hdigit
  have hlow : ¬c.toNat < 0x30 := Nat.not_lt.2 hdigit.1
  have hhigh : c.toNat ≤ 0x39 := hdigit.2
  simp [isDigit, CharSet.contains, digitSet, inRanges, hlow, hhigh]

/-- A number is read back from its decimal digits. -/
theorem natOfDigits_toDigits (n : Nat) : natOfDigits (Nat.toDigits 10 n) = n := by
  have hvalue : ∀ d < 10, digitValue? d.digitChar = some d := by decide
  induction n using Nat.strongRecOn with
  | ind n ih =>
    by_cases hsmall : n < 10
    · rw [Nat.toDigits_of_lt_base hsmall]
      simp [natOfDigits, hvalue n hsmall]
    · have hrest := ih (n / 10) (by omega)
      unfold natOfDigits at hrest ⊢
      rw [Nat.toDigits_of_base_le (by decide) (by omega), List.foldl_append, hrest]
      simp only [List.foldl_cons, List.foldl_nil, hvalue _ (Nat.mod_lt n (by decide)),
        Option.getD_some]
      omega

/-! ## Lines -/

/-- What ends a line: one break, or a return and a line feed. -/
def IsNewline (newline : List Char) : Prop :=
  newline = ['\r', '\n'] ∨ ∃ c, isLineBreak c = true ∧ newline = [c]

theorem unifyBreaks_cons {c : Char} (h : c ≠ '\r') (rest : List Char) :
    unifyBreaks (c :: rest) = c :: unifyBreaks rest := by
  rw [unifyBreaks]
  · rintro rest rfl
    exact absurd rfl h
  · exact h

theorem unifyBreaks_append {line : List Char} (h : '\r' ∉ line) (rest : List Char) :
    unifyBreaks (line ++ rest) = line ++ unifyBreaks rest := by
  induction line with
  | nil => rfl
  | cons c cs ih =>
    rw [List.mem_cons, not_or] at h
    rw [List.cons_append, unifyBreaks_cons (Ne.symm h.1), ih h.2, List.cons_append]

/-- A newline is unified to one break, unless it is a return that is made longer by what follows. -/
theorem unifyBreaks_newline {newline rest : List Char} (hnewline : IsNewline newline)
    (hrest : newline = ['\r'] → rest.head? ≠ some '\n') :
    ∃ c, isLineBreak c = true ∧ unifyBreaks (newline ++ rest) = c :: unifyBreaks rest := by
  obtain rfl | ⟨c, hc, rfl⟩ := hnewline
  · exact ⟨'\n', by decide, rfl⟩
  · by_cases hreturn : c = '\r'
    · subst hreturn
      refine ⟨'\n', by decide, ?_⟩
      rw [List.singleton_append, unifyBreaks]
      rintro after rfl
      exact hrest rfl rfl
    · exact ⟨c, hc, unifyBreaks_cons hreturn rest⟩

/-- A line ends at its line break. -/
theorem linesFrom_append_break {line : List Char} (h : ∀ c ∈ line, isLineBreak c = false)
    {c : Char} (hc : isLineBreak c = true) (before rest : List Char) :
    linesFrom before (line ++ c :: rest) = (before.reverse ++ line) :: linesFrom [] rest := by
  induction line generalizing before with
  | nil => simp [linesFrom, hc]
  | cons d ds ih =>
    rw [List.forall_mem_cons] at h
    rw [List.cons_append, linesFrom, if_neg (by simp [h.1]), ih h.2]
    simp

theorem linesFrom_of_no_break {line : List Char} (h : ∀ c ∈ line, isLineBreak c = false)
    (before : List Char) :
    linesFrom before line =
      if before.reverse ++ line = [] then [] else [before.reverse ++ line] := by
  induction line generalizing before with
  | nil => simp [linesFrom]
  | cons d ds ih =>
    rw [List.forall_mem_cons] at h
    rw [linesFrom, if_neg (by simp [h.1]), ih h.2]
    simp

/-- What is joined by returns does not begin with a line feed. -/
theorem head?_intercalate_return {lines : List (List Char)}
    (h : ∀ line ∈ lines, ∀ c ∈ line, isLineBreak c = false) :
    (['\r'].intercalate lines).head? ≠ some '\n' := by
  cases lines with
  | nil => simp
  | cons line lines =>
    cases line with
    | nil => cases lines <;> simp
    | cons c cs =>
      have hc : c ≠ '\n' := by
        rintro rfl
        exact absurd (h _ List.mem_cons_self _ List.mem_cons_self) (by decide)
      cases lines <;> simp [hc]

/-- Lines that are joined are cut apart again. Only an empty last line leaves no trace. -/
theorem linesOf_intercalate {newline : List Char} (hnewline : IsNewline newline)
    {lines : List (List Char)} (h : ∀ line ∈ lines, ∀ c ∈ line, isLineBreak c = false) :
    linesOf (newline.intercalate lines) =
      if lines.getLast? = some [] then lines.dropLast else lines := by
  have hreturn (line : List Char) (hline : line ∈ lines) : '\r' ∉ line := fun hmem =>
    absurd (h line hline _ hmem) (by decide)
  induction lines with
  | nil => rfl
  | cons line lines ih =>
    have hlines (l : List Char) (hl : l ∈ lines) := h l (List.mem_cons_of_mem _ hl)
    cases lines with
    | nil =>
      rw [List.intercalate_singleton, linesOf, unifyBreaks_of_not_mem (hreturn _ (by simp)),
        linesFrom_of_no_break (h _ (by simp))]
      by_cases hempty : line = [] <;> simp [hempty]
    | cons next lines =>
      have hrest : newline = ['\r'] → (newline.intercalate (next :: lines)).head? ≠ some '\n' := by
        rintro rfl
        exact head?_intercalate_return hlines
      obtain ⟨c, hc, hunified⟩ := unifyBreaks_newline hnewline hrest
      have hstep : linesOf (newline.intercalate (line :: next :: lines)) =
          line :: linesOf (newline.intercalate (next :: lines)) := by
        rw [List.intercalate_cons_cons, List.append_assoc, linesOf,
          unifyBreaks_append (hreturn _ (by simp)), hunified,
          linesFrom_append_break (h _ (by simp)) hc]
        rfl
      rw [hstep, ih hlines fun l hl => hreturn l (List.mem_cons_of_mem _ hl),
        List.getLast?_cons_cons, List.dropLast_cons_cons]
      split <;> rfl

end CodeAtlas.Text
