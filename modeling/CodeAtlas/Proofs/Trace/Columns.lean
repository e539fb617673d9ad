import CodeAtlas.Proofs.Trace.Read

/-!
# Lines with a column

The form with a line and a column has a name in front of the place or none, and may have the word
for a call that is awaited in front of the name. White space tells these apart: a place is one
word, so no parenthesis follows it, and a name is not read as the word for an awaited call.
-/

namespace CodeAtlas.Frame

open Text (Run Piece Stops isBlank isDigit dropBlankStart dropBlankEnd)

/-! ## The place -/

namespace ColumnPlace

theorem isSolid_of_mem_word (p : ColumnPlace) : ∀ c ∈ p.word, isSolid c = true := by
  intro c hc
  simp only [word, bare, List.mem_append, List.mem_cons] at hc
  rw [isSolid_eq_true]
  obtain ((hpath | rfl | hnumber) | rfl | hcolumn) | hclosed := hc
  · exact isBlank_of_isPathChar (p.path.all c hpath)
  · decide
  · exact isBlank_of_isDigit (p.number.all c hnumber)
  · decide
  · exact isBlank_of_isDigit (p.column.all c hcolumn)
  · split at hclosed
    · rw [List.mem_singleton.1 hclosed]
      decide
    · cases hclosed

theorem parenthesis_not_mem_text (p : ColumnPlace) : '(' ∉ p.text := by
  have hclosed : '(' ∉ if p.closed then [')'] else [] := by split <;> decide
  simp [text, word, bare, hclosed, not_mem_of_run p.path.toRun (c := '(') (by decide),
    not_mem_of_run p.number.toRun (c := '(') (by decide),
    not_mem_of_run p.column.toRun (c := '(') (by decide),
    not_mem_of_run p.trailing (c := '(') (by decide)]

/-- The parenthesis is told from the digits of the column. -/
theorem withoutParenthesis_word (p : ColumnPlace) :
    (if p.word.getLast? = some ')' then p.word.dropLast else p.word) = p.bare := by
  obtain ⟨path, number, column, closed, trailing⟩ := p
  cases closed with
  | true => simp [word]
  | false =>
    have hlast : column.text.getLast? ≠ some ')' := fun hlast =>
      not_mem_of_run column.toRun (by decide) (List.mem_of_getLast? hlast)
    have hcolumn := column.ne_nil
    simp only [word, bare, if_false, List.append_nil, Bool.false_eq_true]
    rw [if_neg]
    rwa [List.getLast?_append_of_ne_nil _ (List.cons_ne_nil _ _),
      List.getLast?_cons_of_ne_nil hcolumn]

theorem pathLineColumn?_text (p : ColumnPlace) :
    pathLineColumn? p.text = some (p.path.text, numberOf p.number) := by
  have hword : dropBlankEnd p.text = p.word := by
    refine Text.dropBlankEnd_append p.trailing.all fun c hc => ?_
    exact isSolid_eq_true.1 (p.isSolid_of_mem_word c (List.mem_of_getLast? hc))
  have hcolumn : cutLast? ':' p.bare = some (p.path.text ++ ':' :: p.number.text, p.column.text) :=
    cutLast?_append (not_mem_of_run p.column.toRun (by decide)) _
  have hnumber : cutLast? ':' (p.path.text ++ ':' :: p.number.text) =
      some (p.path.text, p.number.text) :=
    cutLast?_append (not_mem_of_run p.number.toRun (by decide)) _
  simp only [pathLineColumn?, hword, withoutParenthesis_word, hcolumn, hnumber,
    Option.bind_eq_bind, Option.bind_some]
  rw [if_neg]
  · rfl
  · simpa [p.path.ne_nil, p.number.ne_nil, p.column.ne_nil] using
      ⟨⟨p.path.all, p.number.all⟩, p.column.all⟩

end ColumnPlace

theorem exists_columnPlace {cs path : List Char} {n : Int}
    (h : pathLineColumn? cs = some (path, n)) : ∃ p : ColumnPlace, p.text = cs := by
  obtain ⟨trailing, htrailing⟩ := Text.exists_trailing cs
  simp only [pathLineColumn?] at h
  obtain ⟨⟨rest, column⟩, hcolumn, h⟩ := Option.bind_eq_some_iff.1 h
  obtain ⟨⟨path, number⟩, hnumber, h⟩ := Option.bind_eq_some_iff.1 h
  split at h
  · cases h
  next hfields =>
  simp only [Bool.or_eq_true, Bool.not_eq_true', not_or, List.isEmpty_iff,
    Bool.not_eq_false, List.all_eq_true] at hfields
  obtain ⟨⟨⟨⟨⟨hpath, hline⟩, hcol⟩, hpathAll⟩, hnumberAll⟩, hcolumnAll⟩ := hfields
  obtain ⟨hbare, -⟩ := cutLast?_eq_some.1 hcolumn
  obtain ⟨rfl, -⟩ := cutLast?_eq_some.1 hnumber
  refine ⟨⟨⟨⟨path, hpathAll⟩, hpath⟩, ⟨⟨number, hnumberAll⟩, hline⟩, ⟨⟨column, hcolumnAll⟩, hcol⟩,
    decide ((dropBlankEnd cs).getLast? = some ')'), trailing⟩, ?_⟩
  simp only [ColumnPlace.text, ColumnPlace.word, ColumnPlace.bare, decide_eq_true_eq]
  rw [← hbare]
  refine (congrArg (· ++ trailing.text) ?_).trans htrailing.symm
  split
  · next hlast => rw [List.dropLast_append_getLast? _ hlast]
  · rw [List.append_nil]

/-- Only white space follows the first gap of a text of one word. -/
theorem isBlank_of_mem_behind {word : List Char} (hword : ∀ c ∈ word, isSolid c = true)
    {trailing : Run isBlank} {start rest : List Char} (hstart : ∀ c ∈ start, isSolid c = true)
    {gap : Piece isBlank} (h : word ++ trailing.text = start ++ gap.text ++ rest) :
    ∀ c ∈ rest, isBlank c = true := by
  have hstops : Stops isSolid trailing.text := fun c hc =>
    isSolid_eq_false.2 (trailing.all c (List.mem_of_mem_head? hc))
  rw [List.append_assoc] at h
  obtain ⟨-, hrest⟩ := Text.run_unique h hword hstops hstart (stops_gap gap rest)
  intro c hc
  exact trailing.all c (hrest ▸ List.mem_append_right _ hc)

theorem nameBeforePlace?_eq_some {cs name place : List Char} :
    nameBeforePlace? cs = some (name, place) ↔ ∃ (word : Piece isSolid) (gap : Piece isBlank),
      cs = word.text ++ gap.text ++ '(' :: place ∧ word.text = name := by
  constructor
  · intro h
    obtain ⟨word, rest, rfl, hrest⟩ := Text.exists_run isSolid cs
    simp only [nameBeforePlace?, takeWhile_word word.all hrest, dropWhile_word word.all hrest] at h
    split at h
    · next c gap place hplace =>
      split at h
      · cases h
      next hne =>
      cases h
      obtain ⟨indent, hindent⟩ := exists_indent (c :: gap)
      rw [hplace] at hindent
      have hgap : indent.text ≠ [] := by
        rintro hempty
        rw [hempty, List.nil_append] at hindent
        have hc : isSolid c = false := Text.stops_cons.1 hrest
        rw [(List.cons.inj hindent).1] at hc
        exact absurd hc (by decide)
      refine ⟨⟨word, by simpa using hne⟩, ⟨indent, hgap⟩, ?_, rfl⟩
      rw [hindent, List.append_assoc]
    · cases h
  · rintro ⟨word, gap, rfl, rfl⟩
    have hgap := stops_gap gap ('(' :: place)
    have hdrop : dropBlankStart (gap.text ++ '(' :: place) = '(' :: place :=
      Text.dropWhile_append_of_stops gap.all (Text.stops_cons.2 (by decide))
    rw [List.append_assoc, nameBeforePlace?, takeWhile_word word.all hgap,
      dropWhile_word word.all hgap, hdrop]
    obtain ⟨c, cs, hcons⟩ := List.exists_cons_of_ne_nil gap.ne_nil
    simp [hcons, word.ne_nil]

/-- A text of one word is no name with a place behind it. -/
theorem nameBeforePlace?_eq_none (word : List Char) (hword : ∀ c ∈ word, isSolid c = true)
    (trailing : Run isBlank) : nameBeforePlace? (word ++ trailing.text) = none := by
  rw [Option.eq_none_iff_forall_ne_some]
  rintro ⟨name, place⟩ h
  obtain ⟨start, gap, hsplit, -⟩ := nameBeforePlace?_eq_some.1 h
  have hparenthesis := isBlank_of_mem_behind hword start.all hsplit '(' (by simp)
  exact absurd hparenthesis (by decide)

theorem ofNameAndPlace?_text (q : Qualified '.' isSolid) (p : ColumnPlace) :
    ofNameAndPlace? q.text p.text = some ⟨String.ofList (q.qualifier.elim [] (·.text)),
      String.ofList q.last.text, some (numberOf p.number), some (String.ofList p.path.text)⟩ := by
  simp only [ofNameAndPlace?, p.pathLineColumn?_text, q.cutLast?_text, Option.bind_eq_bind,
    Option.bind_some]
  cases hq : q.qualifier with
  | none => simp [Qualified.text, hq]
  | some run => rfl

theorem exists_place_of_ofNameAndPlace? {name place : List Char} {frame : Frame}
    (h : ofNameAndPlace? name place = some frame) : ∃ p : ColumnPlace, p.text = place := by
  obtain ⟨⟨path, n⟩, hplace, -⟩ := Option.bind_eq_some_iff.1 h
  exact exists_columnPlace hplace

theorem isSolid_of_mem_async : ∀ c ∈ "async".toList, isSolid c = true :=
  List.all_eq_true.1 (by decide)

/-- A place is not read as an awaited call, even if it begins with the word for one. -/
theorem ColumnPlace.awaited_eq_none (p : ColumnPlace) :
    (afterAsync? p.text).bind nameBeforePlace? = none := by
  rw [Option.bind_eq_none_iff]
  intro after hafter
  obtain ⟨gap, hsplit, -⟩ := afterAsync?_eq_some.1 hafter
  have hblank := isBlank_of_mem_behind p.isSolid_of_mem_word isSolid_of_mem_async hsplit
  exact nameBeforePlace?_eq_none [] (by simp) ⟨after, hblank⟩

/-- A call that is not awaited is not read as an awaited one, even if its name is the word for
one. -/
theorem Caller.awaited_eq_none (caller : Caller) (p : ColumnPlace) :
    (afterAsync? (caller.text ++ p.text)).bind nameBeforePlace? = none := by
  rw [Option.bind_eq_none_iff]
  intro after hafter
  obtain ⟨gap, hsplit, hstops⟩ := afterAsync?_eq_some.1 hafter
  have hname : caller.name.text ++ (caller.gap.text ++ '(' :: p.text) =
      "async".toList ++ (gap.text ++ after) := by
    simpa [Caller.text] using hsplit
  -- the name is the word itself, so what is behind the gap is the place in its parenthesis
  obtain ⟨-, hgap⟩ := Text.run_unique hname (caller.name.all (by decide)) (stops_gap _ _)
    isSolid_of_mem_async (stops_gap _ _)
  obtain ⟨-, rfl⟩ := Text.run_unique hgap caller.gap.all (Text.stops_cons.2 (by decide)) gap.all
    hstops
  refine nameBeforePlace?_eq_none ('(' :: p.word) (fun c hc => ?_) p.trailing
  obtain rfl | hc := List.mem_cons.1 hc
  · decide
  · exact p.isSolid_of_mem_word c hc

/-- The name of a caller with all its dots. -/
def Caller.word (caller : Caller) : Piece isSolid where
  text := caller.name.text
  all := caller.name.all (by decide)
  ne_nil := caller.name.text_ne_nil

theorem Caller.stops (caller : Caller) (rest : List Char) :
    Stops isBlank (caller.text ++ rest) := by
  simpa [Caller.text, Caller.word] using stops_word caller.word (caller.gap.text ++ '(' :: rest)

theorem Caller.nameBeforePlace?_text (caller : Caller) (place : List Char) :
    nameBeforePlace? (caller.text ++ place) = some (caller.name.text, place) :=
  nameBeforePlace?_eq_some.2 ⟨caller.word, caller.gap, by simp [Caller.text, word], rfl⟩

theorem ofColumnLine?_of_afterAt? {line rest : List Char} (hat : afterAt? line = some rest) :
    ofColumnLine? line =
      ((((afterAsync? rest).bind nameBeforePlace?).bind fun found =>
          ofNameAndPlace? found.1 found.2) <|>
        ((nameBeforePlace? rest).bind fun found => ofNameAndPlace? found.1 found.2) <|>
        ofNameAndPlace? [] rest) := by
  simp only [ofColumnLine?, hat, Option.bind_eq_bind, Option.bind_some, Option.bind_assoc]

namespace ColumnForm

theorem stops (f : ColumnForm) : Stops isBlank (f.prelude ++ f.place.text) := by
  unfold prelude
  obtain - | ⟨awaited, caller⟩ := f.caller
  · have hpath := f.place.path.stops (fun _ => isBlank_of_isPathChar)
    simpa [ColumnPlace.text, ColumnPlace.word, ColumnPlace.bare] using hpath _
  · obtain - | gap := awaited
    · exact caller.stops f.place.text
    · exact Text.stops_cons.2 (by decide)

theorem afterAt?_line (f : ColumnForm) : afterAt? f.line = some (f.prelude ++ f.place.text) :=
  afterAt?_eq_some.2 ⟨f.indent, f.gap, by simp [line], f.stops⟩

theorem ofColumnLine?_line (f : ColumnForm) : ofColumnLine? f.line = some f.frame := by
  rw [ofColumnLine?_of_afterAt? f.afterAt?_line]
  unfold frame prelude
  obtain - | ⟨awaited, caller⟩ := f.caller
  · have hname := nameBeforePlace?_eq_none f.place.word f.place.isSolid_of_mem_word
      f.place.trailing
    have hplace : ofNameAndPlace? [] f.place.text = some ⟨"", "", some (numberOf f.place.number),
        some (String.ofList f.place.path.text)⟩ := by
      simp [ofNameAndPlace?, f.place.pathLineColumn?_text, cutLast?]
    rw [Option.elim_none, List.nil_append, f.place.awaited_eq_none]
    rw [ColumnPlace.text, hname, ← ColumnPlace.text, hplace]
    rfl
  · obtain - | gap := awaited
    · have hawaited := caller.awaited_eq_none f.place
      simp only [Option.elim_some, Option.elim_none, List.nil_append, hawaited,
        caller.nameBeforePlace?_text, ofNameAndPlace?_text, Option.bind_some, Option.bind_none]
      rfl
    · have hasync : afterAsync? ("async".toList ++ gap.text ++ caller.text ++ f.place.text) =
          some (caller.text ++ f.place.text) :=
        afterAsync?_eq_some.2 ⟨gap, by simp, caller.stops f.place.text⟩
      dsimp only [Option.elim_some]
      rw [hasync, Option.bind_some, caller.nameBeforePlace?_text, Option.bind_some,
        ofNameAndPlace?_text]
      rfl

end ColumnForm

theorem exists_caller {cs name place : List Char} (h : nameBeforePlace? cs = some (name, place)) :
    ∃ caller : Caller, caller.text ++ place = cs := by
  obtain ⟨word, gap, rfl, -⟩ := nameBeforePlace?_eq_some.1 h
  obtain ⟨name, hname⟩ := exists_qualified '.' word
  exact ⟨⟨name, gap⟩, by simp [Caller.text, hname]⟩

theorem exists_columnForm {line : List Char} {frame : Frame}
    (h : ofColumnLine? line = some frame) : IsColumnLine line := by
  obtain ⟨rest, hat, -⟩ := Option.bind_eq_some_iff.1 h
  rw [ofColumnLine?_of_afterAt? hat] at h
  obtain ⟨indent, gap, rfl, -⟩ := afterAt?_eq_some.1 hat
  have hform (caller) (place : ColumnPlace)
      (hrest : (ColumnForm.mk indent gap caller place).prelude ++ place.text = rest) :
      IsColumnLine (indent.text ++ "at".toList ++ gap.text ++ rest) :=
    ⟨⟨indent, gap, caller, place⟩, by simp [ColumnForm.line, ← hrest]⟩
  simp only [Option.orElse_eq_orElse, Option.orElse_eq_or, Option.or_eq_some_iff] at h
  obtain hawaited | ⟨-, hcalled | ⟨-, hplain⟩⟩ := h
  · obtain ⟨found, hfound, hplace⟩ := Option.bind_eq_some_iff.1 hawaited
    obtain ⟨after, hasync, hname⟩ := Option.bind_eq_some_iff.1 hfound
    obtain ⟨wait, rfl, -⟩ := afterAsync?_eq_some.1 hasync
    obtain ⟨place, hplace⟩ := exists_place_of_ofNameAndPlace? hplace
    obtain ⟨caller, rfl⟩ := exists_caller hname
    exact hform (some (some wait, caller)) place (by simp [ColumnForm.prelude, hplace])
  · obtain ⟨found, hname, hplace⟩ := Option.bind_eq_some_iff.1 hcalled
    obtain ⟨place, hplace⟩ := exists_place_of_ofNameAndPlace? hplace
    obtain ⟨caller, rfl⟩ := exists_caller hname
    exact hform (some (none, caller)) place (by simp [ColumnForm.prelude, hplace])
  · obtain ⟨place, rfl⟩ := exists_place_of_ofNameAndPlace? hplain
    exact hform none place (by simp [ColumnForm.prelude])

theorem isColumnLine_iff {line : List Char} : IsColumnLine line ↔ (ofColumnLine? line).isSome := by
  constructor
  · rintro ⟨f, rfl⟩
    rw [f.ofColumnLine?_line]
    rfl
  · intro h
    exact exists_columnForm (Option.some_get h).symm

end CodeAtlas.Frame
