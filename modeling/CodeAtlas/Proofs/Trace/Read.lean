import CodeAtlas.Proofs.Trace.Forms

/-!
# Lines read in a form

A line is read in a form exactly if it is a line of the form, and what is read is the frame of its
fields. So no two ways to split a line into fields differ in the frame, and a line that is of no
form is not read.
-/

namespace CodeAtlas.Frame

open Text (Run Piece Stops isBlank isDigit isWord dropBlankStart dropBlankEnd)

/-! ## Characters -/

@[simp] theorem isSolid_eq_true {c : Char} : isSolid c = true ↔ isBlank c = false := by
  simp [isSolid]

@[simp] theorem isSolid_eq_false {c : Char} : isSolid c = false ↔ isBlank c = true := by
  simp [isSolid]

theorem isBlank_of_isWord {c : Char} (h : isWord c = true) : isBlank c = false := by
  by_contra hblank
  simp [Text.isWord_eq_false_of_isBlank (by simpa using hblank)] at h

theorem isBlank_of_isDigit {c : Char} (h : isDigit c = true) : isBlank c = false := by
  by_contra hblank
  simp [Text.isDigit_eq_false_of_isBlank (by simpa using hblank)] at h

theorem isBlank_of_isOwnerChar {c : Char} (h : isOwnerChar c = true) : isBlank c = false := by
  simp only [isOwnerChar, Bool.or_eq_true, beq_iff_eq] at h
  obtain (hword | rfl) | rfl := h
  · exact isBlank_of_isWord hword
  · decide
  · decide

theorem isBlank_of_isMemberChar {c : Char} (h : isMemberChar c = true) : isBlank c = false := by
  simp only [isMemberChar, Bool.or_eq_true, beq_iff_eq] at h
  obtain ((hword | rfl) | rfl) | rfl := h
  · exact isBlank_of_isWord hword
  all_goals decide

theorem isBlank_of_isPackageChar {c : Char} (h : isPackageChar c = true) : isBlank c = false := by
  simp only [isPackageChar, Bool.or_eq_true, beq_iff_eq] at h
  obtain ((hword | rfl) | rfl) | rfl := h
  · exact isBlank_of_isWord hword
  all_goals decide

theorem isBlank_of_isPathChar {c : Char} (h : isPathChar c = true) : isBlank c = false := by
  simpa [isPathChar] using (Bool.and_eq_true_iff.1 h).2

/-- A character that a field does not allow is not in it. -/
theorem not_mem_of_run {p : Char → Bool} (run : Run p) {c : Char} (h : p c = false) :
    c ∉ run.text := fun hmem => by simp [run.all c hmem] at h

/-! ## Words and white space -/

theorem stops_gap (gap : Piece isBlank) (rest : List Char) : Stops isSolid (gap.text ++ rest) :=
  gap.stops (fun _ hc => isSolid_eq_false.2 hc) rest

theorem stops_word (word : Piece isSolid) (rest : List Char) : Stops isBlank (word.text ++ rest) :=
  word.stops (fun _ hc => isSolid_eq_true.1 hc) rest

section Word

variable {word rest : List Char} (hword : ∀ c ∈ word, isSolid c = true) (hrest : Stops isSolid rest)
include hword hrest

theorem takeWhile_word : (word ++ rest).takeWhile (fun c => !isBlank c) = word :=
  Text.takeWhile_append_of_stops hword hrest

theorem dropWhile_word : (word ++ rest).dropWhile (fun c => !isBlank c) = rest :=
  Text.dropWhile_append_of_stops hword hrest

end Word

theorem exists_indent (line : List Char) :
    ∃ indent : Run isBlank, line = indent.text ++ dropBlankStart line := by
  obtain ⟨hsplit, hblank, -⟩ := Text.takeWhile_dropWhile_iff.1 ⟨rfl, Eq.refl (dropBlankStart line)⟩
  exact ⟨⟨_, hblank⟩, hsplit⟩

theorem after?_eq_some {word : String} {cs rest : List Char} :
    after? word cs = some rest ↔ cs = word.toList ++ rest := by
  unfold after?
  constructor
  · intro h
    split at h
    · next hprefix =>
      obtain ⟨after, rfl⟩ := List.isPrefixOf_iff_prefix.1 hprefix
      rw [List.drop_left] at h
      rw [Option.some.inj h]
    · cases h
  · rintro rfl
    rw [if_pos (List.isPrefixOf_iff_prefix.2 (List.prefix_append _ _)), List.drop_left]

/-- What is left when white space is passed over, of which there has to be some. -/
theorem skipped_eq_some {cs rest : List Char} :
    (match cs with
      | c :: _ => if isBlank c then some (dropBlankStart cs) else none
      | [] => none) = some rest ↔
      ∃ gap : Piece isBlank, cs = gap.text ++ rest ∧ Stops isBlank rest := by
  constructor
  · intro h
    split at h
    · next c cs =>
      split at h
      · next hc =>
        obtain ⟨hsplit, hblank, hstops⟩ := Text.takeWhile_dropWhile_iff.1 ⟨rfl, Option.some.inj h⟩
        exact ⟨⟨⟨_, hblank⟩, by simp [hc]⟩, hsplit, hstops⟩
      · cases h
    · cases h
  · rintro ⟨gap, rfl, hstops⟩
    have hdrop := Text.dropWhile_append_of_stops gap.all hstops
    obtain ⟨c, cs, hgap⟩ := List.exists_cons_of_ne_nil gap.ne_nil
    have hc : isBlank c = true := gap.all c (by simp [hgap])
    rw [hgap, List.cons_append] at hdrop ⊢
    simp only [hc, if_true, dropBlankStart, hdrop]

theorem afterAt?_eq_some {line rest : List Char} :
    afterAt? line = some rest ↔ ∃ (indent : Run isBlank) (gap : Piece isBlank),
      line = indent.text ++ "at".toList ++ gap.text ++ rest ∧ Stops isBlank rest := by
  simp only [afterAt?, Option.bind_eq_bind, Option.bind_eq_some_iff, after?_eq_some]
  constructor
  · rintro ⟨after, hat, hskip⟩
    obtain ⟨gap, rfl, hstops⟩ := skipped_eq_some.1 hskip
    obtain ⟨indent, hindent⟩ := exists_indent line
    exact ⟨indent, gap, by simpa [hat] using hindent, hstops⟩
  · rintro ⟨indent, gap, rfl, hstops⟩
    have hat : Stops isBlank ("at".toList ++ (gap.text ++ rest)) := Text.stops_cons.2 (by decide)
    refine ⟨gap.text ++ rest, ?_, skipped_eq_some.2 ⟨gap, rfl, hstops⟩⟩
    rw [List.append_assoc, List.append_assoc, dropBlankStart,
      Text.dropWhile_append_of_stops indent.all hat]

theorem afterAsync?_eq_some {cs rest : List Char} :
    afterAsync? cs = some rest ↔
      ∃ gap : Piece isBlank, cs = "async".toList ++ gap.text ++ rest ∧ Stops isBlank rest := by
  simp only [afterAsync?, Option.bind_eq_bind, Option.bind_eq_some_iff, after?_eq_some]
  constructor
  · rintro ⟨after, rfl, hskip⟩
    obtain ⟨gap, rfl, hstops⟩ := skipped_eq_some.1 hskip
    exact ⟨gap, by simp, hstops⟩
  · rintro ⟨gap, rfl, hstops⟩
    exact ⟨gap.text ++ rest, by simp, skipped_eq_some.2 ⟨gap, rfl, hstops⟩⟩

theorem takeNumber?_eq_some {cs rest : List Char} {n : Int} :
    takeNumber? cs = some (n, rest) ↔
      ∃ number : Piece isDigit, cs = number.text ++ rest ∧ Stops isDigit rest ∧
        numberOf number = n := by
  constructor
  · intro h
    simp only [takeNumber?] at h
    split at h
    · cases h
    · next hne =>
      obtain ⟨hn, hrest⟩ := Prod.mk.inj (Option.some.inj h)
      obtain ⟨hsplit, hdigits, hstops⟩ := Text.takeWhile_dropWhile_iff.1 ⟨rfl, hrest⟩
      exact ⟨⟨⟨_, hdigits⟩, by simpa using hne⟩, hsplit, hstops, hn⟩
  · rintro ⟨number, rfl, hstops, rfl⟩
    simp only [takeNumber?, Text.takeWhile_append_of_stops number.all hstops,
      Text.dropWhile_append_of_stops number.all hstops, List.isEmpty_iff, number.ne_nil, if_false,
      numberOf]

/-! ## The last separator -/

/-- A text with a separator is cut at the last one. -/
theorem cutLast?_append {sep : Char} {after : List Char} (h : sep ∉ after) (before : List Char) :
    cutLast? sep (before ++ sep :: after) = some (before, after) := by
  have htake : (before ++ sep :: after).reverse.takeWhile (· ≠ sep) = after.reverse := by
    rw [List.reverse_append, List.reverse_cons, List.append_assoc]
    refine Text.takeWhile_append_of_stops (fun c hc => ?_) (Text.stops_cons.2 (by simp))
    exact decide_eq_true fun heq => h (heq ▸ List.mem_reverse.1 hc)
  have hlength : (before ++ sep :: after).length = before.length + after.length + 1 := by
    rw [List.length_append, List.length_cons, Nat.add_assoc]
  rw [cutLast?, htake, List.length_reverse, hlength, if_neg (by omega), List.reverse_reverse,
    show before.length + after.length + 1 - after.length - 1 = before.length by omega,
    List.take_left]

theorem cutLast?_of_not_mem {sep : Char} {cs : List Char} (h : sep ∉ cs) :
    cutLast? sep cs = none := by
  have htake : cs.reverse.takeWhile (· ≠ sep) = cs.reverse := by
    rw [List.takeWhile_eq_self_iff]
    exact fun c hc => decide_eq_true fun heq => h (heq ▸ List.mem_reverse.1 hc)
  rw [cutLast?, htake, if_pos List.length_reverse]

theorem exists_last {sep : Char} {cs : List Char} (h : sep ∈ cs) :
    ∃ before after, cs = before ++ sep :: after ∧ sep ∉ after := by
  obtain ⟨ending, start, hcs, hending⟩ := List.eq_append_cons_of_mem (List.mem_reverse.2 h)
  refine ⟨start.reverse, ending.reverse, ?_, by simpa using hending⟩
  rw [← List.reverse_reverse cs, hcs]
  simp

theorem cutLast?_eq_some {sep : Char} {cs before after : List Char} :
    cutLast? sep cs = some (before, after) ↔ cs = before ++ sep :: after ∧ sep ∉ after := by
  constructor
  · intro h
    by_cases hmem : sep ∈ cs
    · obtain ⟨start, ending, rfl, hending⟩ := exists_last hmem
      rw [cutLast?_append hending] at h
      cases h
      exact ⟨rfl, hending⟩
    · rw [cutLast?_of_not_mem hmem] at h
      cases h
  · rintro ⟨rfl, hafter⟩
    exact cutLast?_append hafter before

section Qualified

variable {sep : Char} {p : Char → Bool}

theorem Qualified.cutLast?_text (q : Qualified sep p) :
    cutLast? sep q.text = q.qualifier.map fun run => (run.text, q.last.text) := by
  have hlast : sep ∉ q.last.text := not_mem_of_run q.last (by simp)
  unfold Qualified.text
  cases q.qualifier with
  | none => simpa using cutLast?_of_not_mem hlast
  | some run => simpa using cutLast?_append hlast run.text

theorem Qualified.text_ne_nil (q : Qualified sep p) : q.text ≠ [] := by
  have hlast := q.ne_nil
  unfold Qualified.text
  cases hq : q.qualifier with
  | none => simpa using hlast hq
  | some run => simp

theorem Qualified.all (q : Qualified sep p) (hsep : p sep = true) :
    ∀ c ∈ q.text, p c = true := by
  have hlast (c : Char) (hc : c ∈ q.last.text) : p c = true :=
    (Bool.and_eq_true_iff.1 (q.last.all c hc)).1
  unfold Qualified.text
  cases q.qualifier with
  | none => simpa using hlast
  | some run =>
    simp only [Option.elim_some, List.mem_append, List.mem_singleton]
    rintro c ((hc | rfl) | hc)
    · exact run.all c hc
    · exact hsep
    · exact hlast c hc

/-- Every text that is not empty has a last part. -/
theorem exists_qualified (sep : Char) (f : Piece p) : ∃ q : Qualified sep p, q.text = f.text := by
  have hlast {cs : List Char} (hcs : ∀ c ∈ cs, c ∈ f.text) (hsep : sep ∉ cs) :
      ∀ c ∈ cs, (p c && c ≠ sep) = true := fun c hc => by
    simp only [f.all c (hcs c hc), Bool.true_and, decide_eq_true_eq]
    exact fun heq => hsep (heq ▸ hc)
  by_cases hmem : sep ∈ f.text
  · obtain ⟨before, after, hsplit, hsep⟩ := exists_last hmem
    have hbefore (c : Char) (hc : c ∈ before) : p c = true := f.all c (by simp [hsplit, hc])
    refine ⟨⟨some ⟨before, hbefore⟩, ⟨after, hlast (fun c hc => by simp [hsplit, hc]) hsep⟩,
      by simp⟩, ?_⟩
    simp [Qualified.text, hsplit]
  · exact ⟨⟨none, ⟨f.text, hlast (fun _ => id) hmem⟩, fun _ => f.ne_nil⟩, rfl⟩

end Qualified

/-! ## A class and a method -/

section File

variable (run : Run isFileChar) {rest : List Char} (hrest : Stops isFileChar rest)
include hrest

theorem takeWhile_file : (run.text ++ rest).takeWhile (fun c => c ≠ ':' && c ≠ ')') = run.text :=
  Text.takeWhile_append_of_stops run.all hrest

theorem dropWhile_file : (run.text ++ rest).dropWhile (fun c => c ≠ ':' && c ≠ ')') = rest :=
  Text.dropWhile_append_of_stops run.all hrest

end File

theorem parenthesisedPlace?_eq_some {cs file : List Char} {n : Option Int} :
    parenthesisedPlace? cs = some (file, n) ↔
      ∃ (run : Run isFileChar) (number : Option (Piece isDigit)) (rest : List Char),
        cs = run.text ++ (number.elim [] fun number => ':' :: number.text) ++ ')' :: rest ∧
        run.text = file ∧ number.map numberOf = n := by
  constructor
  · intro h
    obtain ⟨run, rest, rfl, hstops⟩ := Text.exists_run isFileChar cs
    simp only [parenthesisedPlace?, takeWhile_file run hstops, dropWhile_file run hstops] at h
    split at h
    · next rest =>
      cases h
      exact ⟨run, none, rest, by simp, rfl, rfl⟩
    · next rest =>
      obtain ⟨⟨m, rest⟩, hnumber, h⟩ := Option.bind_eq_some_iff.1 h
      obtain ⟨number, rfl, -, rfl⟩ := takeNumber?_eq_some.1 hnumber
      split at h
      · next after hafter =>
        cases h
        exact ⟨run, some number, after, by simp [← hafter], rfl, rfl⟩
      · cases h
    · cases h
  · rintro ⟨run, number, rest, rfl, rfl, rfl⟩
    cases number with
    | none =>
      have hrest : Stops isFileChar (')' :: rest) := Text.stops_cons.2 (by decide)
      rw [Option.elim_none, List.append_nil, parenthesisedPlace?, takeWhile_file run hrest,
        dropWhile_file run hrest]
      rfl
    | some number =>
      have hnumber : takeNumber? (number.text ++ ')' :: rest) =
          some (numberOf number, ')' :: rest) :=
        takeNumber?_eq_some.2 ⟨number, rfl, Text.stops_cons.2 (by decide), rfl⟩
      have hrest : Stops isFileChar (':' :: (number.text ++ ')' :: rest)) :=
        Text.stops_cons.2 (by decide)
      rw [Option.elim_some, List.append_assoc, List.cons_append, parenthesisedPlace?,
        takeWhile_file run hrest, dropWhile_file run hrest]
      simp only [hnumber, Option.bind_eq_bind, Option.bind_some, Option.map_some]

/-- What is read of a line is decided by what stands on either side of its first parenthesis. -/
theorem ofClassLine?_of_afterAt? {line head place : List Char}
    (hat : afterAt? line = some (head ++ '(' :: place)) (hhead : '(' ∉ head) :
    ofClassLine? line = (cutLast? '.' head).bind fun found =>
      if found.1.isEmpty || found.2.isEmpty || !found.1.all isOwnerChar ||
          !found.2.all isMemberChar then none
      else (parenthesisedPlace? place).map fun (file, n) =>
        ⟨String.ofList (found.1.takeWhile (· ≠ '$')), String.ofList found.2, n,
          if file.isEmpty then none else some (String.ofList file)⟩ := by
  have hrun (c : Char) (hc : c ∈ head) : decide (c ≠ '(') = true :=
    decide_eq_true fun heq => hhead (heq ▸ hc)
  have hstops : Stops (fun c => decide (c ≠ '(')) ('(' :: place) := Text.stops_cons.2 (by simp)
  simp only [ofClassLine?, hat, Option.bind_eq_bind, Option.bind_some,
    Text.takeWhile_append_of_stops hrun hstops, Text.dropWhile_append_of_stops hrun hstops]
  refine Option.bind_congr fun found _ => ?_
  split
  · rfl
  · exact (Option.map_eq_bind ..).symm

theorem ofClassLine?_of_not_mem {line rest : List Char} (hat : afterAt? line = some rest)
    (h : '(' ∉ rest) : ofClassLine? line = none := by
  have hdrop : rest.dropWhile (· ≠ '(') = [] := by
    rw [List.dropWhile_eq_nil_iff]
    exact fun c hc => decide_eq_true fun heq => h (heq ▸ hc)
  simp only [ofClassLine?, hat, Option.bind_eq_bind, Option.bind_some, hdrop]

/-- A class and a method with the dot between them. -/
def ClassForm.head (f : ClassForm) : List Char := f.owner.text ++ '.' :: f.member.text

theorem ClassForm.parenthesis_not_mem_head (f : ClassForm) : '(' ∉ f.head := by
  simp [head, not_mem_of_run f.owner.toRun (c := '(') (by decide),
    not_mem_of_run f.member.toRun (c := '(') (by decide)]

theorem ClassForm.isSolid_of_mem_head (f : ClassForm) : ∀ c ∈ f.head, isSolid c = true := by
  intro c hc
  rw [isSolid_eq_true]
  simp only [head, List.mem_append, List.mem_cons] at hc
  obtain howner | rfl | hmember := hc
  · exact isBlank_of_isOwnerChar (f.owner.all c howner)
  · decide
  · exact isBlank_of_isMemberChar (f.member.all c hmember)

theorem ClassForm.afterAt?_line (f : ClassForm) :
    afterAt? f.line = some (f.head ++ '(' :: f.place) := by
  refine afterAt?_eq_some.2 ⟨f.indent, f.gap, by simp [line, head], ?_⟩
  rw [head, List.append_assoc]
  exact f.owner.stops (fun _ => isBlank_of_isOwnerChar) _

theorem ClassForm.ofClassLine?_line (f : ClassForm) : ofClassLine? f.line = some f.frame := by
  have hmember : '.' ∉ f.member.text := not_mem_of_run f.member.toRun (by decide)
  have hplace : parenthesisedPlace? f.place = some (f.file.text, f.number.map numberOf) :=
    parenthesisedPlace?_eq_some.2 ⟨f.file, f.number, f.rest, rfl, rfl, rfl⟩
  rw [ofClassLine?_of_afterAt? f.afterAt?_line f.parenthesis_not_mem_head, head,
    cutLast?_append hmember, Option.bind_some, if_neg, hplace]
  · rfl
  · simpa [f.owner.ne_nil, f.member.ne_nil] using ⟨f.owner.all, f.member.all⟩

/-- What is read as a line with a class has the fields of one. -/
theorem exists_classForm {line : List Char} {frame : Frame} (h : ofClassLine? line = some frame) :
    IsClassLine line := by
  obtain ⟨rest, hat, -⟩ := Option.bind_eq_some_iff.1 h
  by_cases hmem : '(' ∈ rest
  · obtain ⟨head, place, rfl, hhead⟩ := List.eq_append_cons_of_mem hmem
    rw [ofClassLine?_of_afterAt? hat hhead] at h
    obtain ⟨⟨owner, member⟩, hcut, hread⟩ := Option.bind_eq_some_iff.1 h
    obtain ⟨rfl, -⟩ := cutLast?_eq_some.1 hcut
    obtain ⟨indent, gap, rfl, -⟩ := afterAt?_eq_some.1 hat
    split at hread
    · cases hread
    · next hfields =>
      obtain ⟨⟨file, n⟩, hplace, -⟩ := Option.map_eq_some_iff.1 hread
      obtain ⟨run, number, rest, rfl, rfl, -⟩ := parenthesisedPlace?_eq_some.1 hplace
      simp only [Bool.or_eq_true, Bool.not_eq_true', not_or, List.isEmpty_iff,
        Bool.not_eq_false, List.all_eq_true] at hfields
      obtain ⟨⟨⟨howner, hmember⟩, hownerAll⟩, hmemberAll⟩ := hfields
      refine ⟨⟨indent, gap, ⟨⟨owner, hownerAll⟩, howner⟩, ⟨⟨member, hmemberAll⟩, hmember⟩, run,
        number, rest⟩, ?_⟩
      simp [ClassForm.line, ClassForm.place]
  · rw [ofClassLine?_of_not_mem hat hmem] at h
    cases h

theorem isClassLine_iff {line : List Char} : IsClassLine line ↔ (ofClassLine? line).isSome := by
  constructor
  · rintro ⟨f, rfl⟩
    rw [f.ofClassLine?_line]
    rfl
  · intro h
    exact exists_classForm (Option.some_get h).symm

/-! ## A quoted path and a line -/

theorem FileForm.ofFileLine?_line (f : FileForm) : ofFileLine? f.line = some f.frame := by
  let afterNumber : List Char := ", in ".toList ++ (f.name.text ++ f.rest)
  let afterPath : List Char := "\", line ".toList ++ (f.number.text ++ afterNumber)
  have hindent : dropBlankStart f.line = "File \"".toList ++ (f.path.text ++ afterPath) := by
    simp only [FileForm.line, List.append_assoc]
    exact Text.dropWhile_append_of_stops f.indent.all (Text.stops_cons.2 (by decide))
  have hquote : Stops isQuotedChar afterPath := Text.stops_cons.2 (by decide)
  have hpath : (f.path.text ++ afterPath).takeWhile (· ≠ '"') = f.path.text :=
    Text.takeWhile_append_of_stops f.path.all hquote
  have hafterPath : (f.path.text ++ afterPath).dropWhile (· ≠ '"') = afterPath :=
    Text.dropWhile_append_of_stops f.path.all hquote
  have hnumber : takeNumber? (f.number.text ++ afterNumber) =
      some (numberOf f.number, afterNumber) :=
    takeNumber?_eq_some.2 ⟨f.number, rfl, Text.stops_cons.2 (by decide), rfl⟩
  simp only [ofFileLine?, Option.bind_eq_bind, after?_eq_some.2 hindent, Option.bind_some, hpath,
    hafterPath, after?_eq_some.2 (Eq.refl afterPath), hnumber,
    after?_eq_some.2 (Eq.refl afterNumber), takeWhile_word f.name.all f.stops, List.isEmpty_iff,
    f.path.ne_nil, f.name.ne_nil, if_false, FileForm.frame]

theorem exists_fileForm {line : List Char} {frame : Frame} (h : ofFileLine? line = some frame) :
    IsFileLine line := by
  obtain ⟨start, hstart, hpath⟩ := Option.bind_eq_some_iff.1 h
  obtain ⟨indent, hindent⟩ := exists_indent line
  obtain ⟨path, afterPath, rfl, hstops⟩ := Text.exists_run isQuotedChar start
  have hdrop : (path.text ++ afterPath).dropWhile (· ≠ '"') = afterPath :=
    Text.dropWhile_append_of_stops path.all hstops
  have htake : (path.text ++ afterPath).takeWhile (· ≠ '"') = path.text :=
    Text.takeWhile_append_of_stops path.all hstops
  simp only [htake, hdrop, Option.bind_eq_bind] at hpath
  split at hpath
  · cases hpath
  next hne =>
  obtain ⟨rest, hquote, hnumber⟩ := Option.bind_eq_some_iff.1 hpath
  obtain ⟨⟨n, afterNumber⟩, htaken, hname⟩ := Option.bind_eq_some_iff.1 hnumber
  obtain ⟨number, rfl, -, -⟩ := takeNumber?_eq_some.1 htaken
  obtain ⟨rest, hin, hread⟩ := Option.bind_eq_some_iff.1 hname
  have hafter : afterNumber = ", in ".toList ++ rest := after?_eq_some.1 hin
  obtain ⟨name, rest, rfl, hrest⟩ := Text.exists_run isSolid rest
  rw [takeWhile_word name.all hrest] at hread
  split at hread
  · cases hread
  next hnamed =>
  refine ⟨⟨indent, ⟨path, by simpa using hne⟩, number, ⟨name, by simpa using hnamed⟩, rest,
    hrest⟩, ?_⟩
  rw [hindent, after?_eq_some.1 hstart, after?_eq_some.1 hquote, hafter]
  simp only [FileForm.line, List.append_assoc]

theorem isFileLine_iff {line : List Char} : IsFileLine line ↔ (ofFileLine? line).isSome := by
  constructor
  · rintro ⟨f, rfl⟩
    rw [f.ofFileLine?_line]
    rfl
  · intro h
    exact exists_fileForm (Option.some_get h).symm

end CodeAtlas.Frame
