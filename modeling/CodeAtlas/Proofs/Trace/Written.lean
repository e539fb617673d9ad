import CodeAtlas.Proofs.Text.Occurrences
import CodeAtlas.Proofs.Trace.Calls
import CodeAtlas.Proofs.Trace.Columns

/-!
# Written traces

A trace that is written from frames in any of the forms, with other lines between them, is read as
these frames. The first word of a line tells most forms apart. Only the two that begin with the same
word overlap: a line with a column whose name holds a call of the other form is read as that
one, which is tried first.
-/

namespace CodeAtlas.Frame

open Text (Run Piece Stops isBlank isDigit isLineBreak dropBlankStart)

/-! ## The first word of a line -/

/-- What stands before the first white space behind the indentation. -/
def firstWord (line : List Char) : List Char := (dropBlankStart line).takeWhile isSolid

theorem firstWord_append (indent : Run isBlank) (word : Piece isSolid) (rest : List Char) :
    firstWord (indent.text ++ (word.text ++ rest)) = word.text ++ rest.takeWhile isSolid := by
  rw [firstWord, dropBlankStart,
    Text.dropWhile_append_of_stops indent.all (stops_word word rest),
    List.takeWhile_append_of_pos word.all]

theorem firstWord_of_afterAt? {line rest : List Char} (h : afterAt? line = some rest) :
    firstWord line = "at".toList := by
  obtain ⟨indent, gap, rfl, -⟩ := afterAt?_eq_some.1 h
  have hgap : (gap.text ++ rest).takeWhile isSolid = [] :=
    Text.takeWhile_of_stops (stops_gap gap rest)
  have hword : firstWord (indent.text ++ ("at".toList ++ (gap.text ++ rest))) =
      "at".toList ++ (gap.text ++ rest).takeWhile isSolid :=
    firstWord_append indent (.ofText "at" (by decide) (by decide)) (gap.text ++ rest)
  rw [List.append_assoc, List.append_assoc, hword, hgap, List.append_nil]

theorem firstWord_of_ofFileLine? {line : List Char} {frame : Frame}
    (h : ofFileLine? line = some frame) : firstWord line = "File".toList := by
  obtain ⟨rest, hstart, -⟩ := Option.bind_eq_some_iff.1 h
  rw [firstWord, after?_eq_some.1 hstart]
  rfl

/-- A line whose first word has a dot is of no form that is one line. -/
theorem eq_none_of_dot_mem {line : List Char} (h : '.' ∈ firstWord line) :
    ofClassLine? line = none ∧ ofFileLine? line = none ∧ ofColumnLine? line = none := by
  have hat : afterAt? line = none := by
    rw [Option.eq_none_iff_forall_ne_some]
    intro rest hrest
    rw [firstWord_of_afterAt? hrest] at h
    exact absurd h (by decide)
  refine ⟨?_, ?_, ?_⟩
  · rw [ofClassLine?, hat]
    rfl
  · rw [Option.eq_none_iff_forall_ne_some]
    intro frame hframe
    rw [firstWord_of_ofFileLine? hframe] at h
    exact absurd h (by decide)
  · rw [ofColumnLine?, hat]
    rfl

theorem CallForm.dot_mem_firstWord (f : CallForm) : '.' ∈ firstWord f.line := by
  have hsolid : ∀ c ∈ f.package.text ++ ['.'], isSolid c = true := by
    rw [List.forall_mem_append]
    refine ⟨fun c hc => isSolid_eq_true.2 (isBlank_of_isPackageChar ?_),
      List.all_eq_true.1 (by decide)⟩
    exact f.package.all (by decide) c hc
  have hword := firstWord_append ⟨[], by simp⟩ ⟨⟨f.package.text ++ ['.'], hsolid⟩, by simp⟩
    f.member.text
  have hline : f.line = [] ++ ((f.package.text ++ ['.']) ++ f.member.text) := by simp [line]
  rw [hline, hword]
  simp

/-- A call is not indented. -/
theorem CallForm.stops (f : CallForm) : Stops isBlank f.line :=
  (Piece.mk ⟨f.package.text, f.package.all (by decide)⟩ f.package.text_ne_nil).stops
    (fun _ => isBlank_of_isPackageChar) _

theorem PlaceForm.dot_mem_firstWord (f : PlaceForm) : '.' ∈ firstWord f.line := by
  have hsolid : ∀ c ∈ f.stem.text ++ ".go:".toList, isSolid c = true :=
    fun c hc => isSolid_of_mem_place (List.mem_append_left f.number.text hc)
  have hword := firstWord_append f.indent.toRun ⟨⟨f.stem.text ++ ".go:".toList, hsolid⟩, by simp⟩
    (f.number.text ++ f.rest)
  have hline : f.line =
      f.indent.text ++ ((f.stem.text ++ ".go:".toList) ++ (f.number.text ++ f.rest)) := by
    simp [line]
  rw [hline, hword]
  simp

/-! ## Lines of each form -/

theorem ClassForm.ofLine?_line (f : ClassForm) (next : Option (List Char)) :
    ofLine? f.line next = some f.frame := by
  rw [ofLine?, f.ofClassLine?_line]
  rfl

theorem FileForm.ofLine?_line (f : FileForm) (next : Option (List Char)) :
    ofLine? f.line next = some f.frame := by
  have hclass : ofClassLine? f.line = none := by
    rw [Option.eq_none_iff_forall_ne_some]
    intro frame hframe
    obtain ⟨rest, hat, -⟩ := Option.bind_eq_some_iff.1 hframe
    have hword := firstWord_of_ofFileLine? f.ofFileLine?_line
    rw [firstWord_of_afterAt? hat] at hword
    exact absurd hword (by decide)
  rw [ofLine?, hclass, f.ofFileLine?_line]
  rfl

/-- A line with a column is read in its form unless it is also of the form that is tried first. -/
theorem ColumnForm.ofLine?_line (f : ColumnForm) (h : ¬IsClassLine f.line)
    (next : Option (List Char)) : ofLine? f.line next = some f.frame := by
  have hclass : ofClassLine? f.line = none := by simpa [isClassLine_iff] using h
  have hfile : ofFileLine? f.line = none := by
    rw [Option.eq_none_iff_forall_ne_some]
    intro frame hframe
    obtain ⟨rest, hat, -⟩ := Option.bind_eq_some_iff.1 f.ofColumnLine?_line
    have hword := firstWord_of_ofFileLine? hframe
    rw [firstWord_of_afterAt? hat] at hword
    exact absurd hword (by decide)
  rw [ofLine?, hclass, hfile, f.ofColumnLine?_line]
  rfl

/-- A name without parentheses leaves a line with a column in its own form. -/
theorem ColumnForm.not_isClassLine (f : ColumnForm)
    (h : ∀ caller ∈ f.caller, '(' ∉ caller.2.name.text) : ¬IsClassLine f.line := by
  rintro ⟨g, hline⟩
  have hrest : g.head ++ '(' :: g.place = f.prelude ++ f.place.text :=
    Option.some.inj (g.afterAt?_line.symm.trans (hline ▸ f.afterAt?_line))
  unfold prelude at hrest
  obtain hcaller | ⟨⟨awaited, caller⟩, hcaller⟩ := Option.eq_none_or_eq_some f.caller
  · rw [hcaller, Option.elim_none, List.nil_append] at hrest
    exact f.place.parenthesis_not_mem_text (hrest ▸ by simp)
  -- the first parenthesis follows white space in this form and a letter in the other one
  · have hblank (gap : Piece isBlank) : '(' ∉ gap.text := not_mem_of_run gap.toRun (by decide)
    have hawaited : '(' ∉ awaited.elim [] fun gap => "async".toList ++ gap.text := by
      cases awaited <;> simp [hblank]
    have hbefore : '(' ∉ (awaited.elim [] fun gap => "async".toList ++ gap.text) ++
        caller.name.text ++ caller.gap.text := by
      simp only [List.mem_append, not_or]
      exact ⟨⟨hawaited, h _ hcaller⟩, hblank caller.gap⟩
    have hsplit : g.head ++ '(' :: g.place =
        ((awaited.elim [] fun gap => "async".toList ++ gap.text) ++ caller.name.text ++
          caller.gap.text) ++ '(' :: f.place.text := by
      simpa [hcaller, Caller.text] using hrest
    have hhead := Text.eq_of_append_separator g.parenthesis_not_mem_head hbefore hsplit
    obtain ⟨c, cs, hgap⟩ := List.exists_cons_of_ne_nil caller.gap.ne_nil
    have hsolid := g.isSolid_of_mem_head c (by rw [hhead, hgap]; simp)
    have hc : isBlank c = true := caller.gap.all c (by simp [hgap])
    rw [isSolid_eq_true, hc] at hsolid
    cases hsolid

theorem CallForm.ofLine?_line (f : CallForm) (place : PlaceForm) :
    ofLine? f.line (some place.line) = some (f.frame place) := by
  obtain ⟨hclass, hfile, hcolumn⟩ := eq_none_of_dot_mem f.dot_mem_firstWord
  rw [ofLine?, hclass, hfile, hcolumn]
  exact f.ofCallLines?_line place

/-- The line with the place of a call is no frame of its own. -/
theorem PlaceForm.ofLine?_line (f : PlaceForm) (next : Option (List Char)) :
    ofLine? f.line next = none := by
  obtain ⟨hclass, hfile, hcolumn⟩ := eq_none_of_dot_mem f.dot_mem_firstWord
  have hcall (after : List Char) : ofCallLines? f.line after = none := by
    refine ofCallLines?_eq_none ?_
    rintro ⟨call, hline⟩ -
    obtain ⟨c, cs, hindent⟩ := List.exists_cons_of_ne_nil f.indent.ne_nil
    have hblank : isBlank c = true := f.indent.all c (by simp [hindent])
    have hstops := call.stops
    rw [hline, PlaceForm.line, hindent] at hstops
    exact absurd (Text.stops_cons.1 hstops) (by simp [hblank])
  rw [ofLine?, hclass, hfile, hcolumn]
  cases next with
  | none => rfl
  | some after => exact hcall after

/-- Whether a line is of no form. A call is of none without a place on the line after it. -/
structure IsOther (line : List Char) (next : Option (List Char)) : Prop where
  not_class : ¬IsClassLine line
  not_file : ¬IsFileLine line
  not_column : ¬IsColumnLine line
  not_call : IsCallLine line → ∀ after ∈ next, ¬IsPlaceLine after

theorem IsOther.ofLine?_eq_none {line : List Char} {next : Option (List Char)}
    (h : IsOther line next) : ofLine? line next = none := by
  have hclass : ofClassLine? line = none := by simpa [isClassLine_iff] using h.not_class
  have hfile : ofFileLine? line = none := by simpa [isFileLine_iff] using h.not_file
  have hcolumn : ofColumnLine? line = none := by simpa [isColumnLine_iff] using h.not_column
  rw [ofLine?, hclass, hfile, hcolumn]
  cases next with
  | none => rfl
  | some after => exact ofCallLines?_eq_none fun hcall => h.not_call hcall after rfl

/-! ## Traces -/

/-- What a trace is written from: frames in the four forms, and other lines. -/
inductive Entry where
  | classLine (f : ClassForm)
  | fileLine (f : FileForm)
  | columnLine (f : ColumnForm)
  | call (f : CallForm) (place : PlaceForm)
  | other (line : List Char)

namespace Entry

def lines : Entry → List (List Char)
  | classLine f => [f.line]
  | fileLine f => [f.line]
  | columnLine f => [f.line]
  | call f place => [f.line, place.line]
  | other line => [line]

def frame? : Entry → Option Frame
  | classLine f => some f.frame
  | fileLine f => some f.frame
  | columnLine f => some f.frame
  | call f place => some (f.frame place)
  | other _ => none

/-- Whether an entry is told for what it is, with a line after it perhaps: other lines are of no
form, and a line with a column is not of the form that is tried before its own. -/
def Told (next : Option (List Char)) : Entry → Prop
  | columnLine f => ¬IsClassLine f.line
  | other line => IsOther line next
  | _ => True

end Entry

/-- The lines of entries, one entry below the other. -/
def linesBelow (entries : List Entry) : List (List Char) := entries.flatMap Entry.lines

/-- Whether every entry is told for what it is. -/
def AllTold : List Entry → Prop
  | [] => True
  | entry :: rest => entry.Told (linesBelow rest).head? ∧ AllTold rest

theorem ofLines_cons {line : List Char} {rest : List (List Char)} {frame : Option Frame}
    (h : ofLine? line rest.head? = frame) :
    ofLines (line :: rest) = frame.toList ++ ofLines rest := by
  rw [ofLines, h]

instance {line : List Char} : Decidable (IsClassLine line) :=
  decidable_of_iff _ isClassLine_iff.symm

instance {line : List Char} : Decidable (IsFileLine line) :=
  decidable_of_iff _ isFileLine_iff.symm

instance {line : List Char} : Decidable (IsColumnLine line) :=
  decidable_of_iff _ isColumnLine_iff.symm

instance {line : List Char} : Decidable (IsCallLine line) :=
  decidable_of_iff _ isCallLine_iff.symm

instance {line : List Char} : Decidable (IsPlaceLine line) :=
  decidable_of_iff _ isPlaceLine_iff.symm

instance {line : List Char} {next : Option (List Char)} : Decidable (IsOther line next) :=
  decidable_of_iff (¬IsClassLine line ∧ ¬IsFileLine line ∧ ¬IsColumnLine line ∧
    (IsCallLine line → ∀ after ∈ next, ¬IsPlaceLine after))
    ⟨fun h => ⟨h.1, h.2.1, h.2.2.1, h.2.2.2⟩, fun h => ⟨h.1, h.2, h.3, h.4⟩⟩

instance {next : Option (List Char)} : (entry : Entry) → Decidable (entry.Told next)
  | .columnLine f => inferInstanceAs (Decidable (¬IsClassLine f.line))
  | .other line => inferInstanceAs (Decidable (IsOther line next))
  | .classLine _ | .fileLine _ | .call _ _ => isTrue trivial

instance decidableAllTold : (entries : List Entry) → Decidable (AllTold entries)
  | [] => isTrue trivial
  | entry :: rest =>
    have := decidableAllTold rest
    inferInstanceAs (Decidable (entry.Told (linesBelow rest).head? ∧ AllTold rest))

/-- An entry is read as its frame, whatever is below it. -/
theorem Entry.ofLines_append {entry : Entry} {rest : List (List Char)}
    (h : entry.Told rest.head?) :
    ofLines (entry.lines ++ rest) = entry.frame?.toList ++ ofLines rest := by
  cases entry with
  | classLine f => exact ofLines_cons (f.ofLine?_line _)
  | fileLine f => exact ofLines_cons (f.ofLine?_line _)
  | columnLine f => exact ofLines_cons (f.ofLine?_line h _)
  | call f place =>
    have hcall : ofLines (f.line :: place.line :: rest) = _ := ofLines_cons (f.ofLine?_line place)
    have hplace : ofLines (place.line :: rest) = _ := ofLines_cons (place.ofLine?_line _)
    rw [hplace] at hcall
    exact hcall
  | other line => exact ofLines_cons h.ofLine?_eq_none

theorem ofLines_linesBelow {entries : List Entry} (h : AllTold entries) :
    ofLines (linesBelow entries) = entries.filterMap Entry.frame? := by
  induction entries with
  | nil => rfl
  | cons entry rest ih =>
    have hlines : linesBelow (entry :: rest) = entry.lines ++ linesBelow rest := rfl
    rw [hlines, Entry.ofLines_append h.1, ih h.2, List.filterMap_cons]
    cases entry.frame? <;> rfl

/-- An empty last line makes no difference. -/
theorem ofLines_concat_nil (lines : List (List Char)) :
    ofLines (lines ++ [[]]) = ofLines lines := by
  induction lines with
  | nil => rfl
  | cons line rest ih =>
    cases rest with
    | nil =>
      have hplace : ofCallLines? line [] = none := by
        refine ofCallLines?_eq_none fun _ hplace => ?_
        rw [isPlaceLine_iff] at hplace
        exact absurd hplace (by decide)
      have hline : ofLine? line (some []) = ofLine? line none := by
        rw [ofLine?, ofLine?, Option.bind_some, hplace, Option.bind_none]
      exact congrArg (fun frame => frame.toList ++ []) hline
    | cons next rest =>
      rw [List.cons_append, ofLines, ih, ofLines]
      rfl

/-- A trace is read as the frames it is written from, in their order, and a line number that is
written in decimal digits is read as that number. -/
theorem parseTrace_linesBelow {newline : List Char} {entries : List Entry}
    (hnewline : Text.IsNewline newline)
    (hbreaks : ∀ line ∈ linesBelow entries, ∀ c ∈ line, isLineBreak c = false)
    (h : AllTold entries) :
    parseTrace (String.ofList (newline.intercalate (linesBelow entries))) =
        entries.filterMap Entry.frame? ∧
      ∀ n : Nat, numberOf (decimal n) = n := by
  refine ⟨?_, numberOf_decimal⟩
  rw [parseTrace, String.toList_ofList, Text.linesOf_intercalate hnewline hbreaks,
    ← ofLines_linesBelow h]
  split
  · next hlast =>
    rw [← ofLines_concat_nil, List.dropLast_append_getLast? _ hlast]
  · rfl

/-- A trace with frames of every form and lines of none. -/
def mixedTrace : List Entry :=
  [.other "Error: no such cart".toList,
    .columnLine
      { indent := .ofText "    " (by decide)
        gap := .ofText " " (by decide) (by decide)
        caller := some (some (.ofText " " (by decide) (by decide)),
          { name :=
              { qualifier := some (.ofText "Shop" (by decide))
                last := .ofText "find" (by decide)
                ne_nil := by simp }
            gap := .ofText " " (by decide) (by decide) })
        place :=
          { path := .ofText "/srv/a.ts" (by decide) (by decide)
            number := decimal 3
            column := decimal 9
            closed := true
            trailing := .ofText "" (by decide) } },
    .columnLine
      { indent := .ofText "    " (by decide)
        gap := .ofText " " (by decide) (by decide)
        caller := none
        place :=
          { path := .ofText "/srv/main.ts" (by decide) (by decide)
            number := decimal 5
            column := decimal 2
            closed := false
            trailing := .ofText "" (by decide) } },
    .other [],
    .classLine
      { indent := .ofText "\t" (by decide)
        gap := .ofText " " (by decide) (by decide)
        owner := .ofText "com.shop.Cart$Line" (by decide) (by decide)
        member := .ofText "total" (by decide) (by decide)
        file := .ofText "Cart.java" (by decide)
        number := some (decimal 42)
        rest := [] },
    .classLine
      { indent := .ofText "\t" (by decide)
        gap := .ofText " " (by decide) (by decide)
        owner := .ofText "com.shop.Cart" (by decide) (by decide)
        member := .ofText "<init>" (by decide) (by decide)
        file := .ofText "" (by decide)
        number := none
        rest := [] },
    .fileLine
      { indent := .ofText "  " (by decide)
        path := .ofText "/srv/api.py" (by decide) (by decide)
        number := decimal 12
        name := .ofText "place" (by decide) (by decide)
        rest := []
        stops := Text.stops_nil },
    .other "    return place(order)".toList,
    .call
      { package :=
          { qualifier := none
            last := .ofText "main" (by decide)
            ne_nil := fun _ => by decide }
        member :=
          { receiver := some ⟨true, .ofText "Server" (by decide) (by decide)⟩
            name := .ofText "handle" (by decide) (by decide)
            arguments := "0xc0".toList
            trailing := .ofText "" (by decide) } }
      { indent := .ofText "\t" (by decide) (by decide)
        stem := .ofText "/srv/orders" (by decide) (by decide)
        number := decimal 42
        rest := " +0x1d".toList
        stops := Text.stops_cons.2 (by decide) },
    .call
      { package :=
          { qualifier := some (.ofText "example.com/shop" (by decide))
            last := .ofText "service" (by decide)
            ne_nil := by simp }
        member :=
          { receiver := none
            name := .ofText "Place" (by decide) (by decide)
            arguments := "...".toList
            trailing := .ofText "" (by decide) } }
      { indent := .ofText "\t" (by decide) (by decide)
        stem := .ofText "/srv/service" (by decide) (by decide)
        number := decimal 17
        rest := []
        stops := Text.stops_nil },
    .other "main.run()".toList]

theorem parseTrace_mixedTrace :
    Text.IsNewline ['\n'] ∧
    (∀ line ∈ linesBelow mixedTrace, ∀ c ∈ line, isLineBreak c = false) ∧ AllTold mixedTrace ∧
    (linesBelow mixedTrace).map String.ofList =
      ["Error: no such cart", "    at async Shop.find (/srv/a.ts:3:9)",
        "    at /srv/main.ts:5:2", "", "\tat com.shop.Cart$Line.total(Cart.java:42)",
        "\tat com.shop.Cart.<init>()", "  File \"/srv/api.py\", line 12, in place",
        "    return place(order)", "main.(*Server).handle(0xc0)", "\t/srv/orders.go:42 +0x1d",
        "example.com/shop/service.Place(...)", "\t/srv/service.go:17", "main.run()"] ∧
    parseTrace (String.ofList (['\n'].intercalate (linesBelow mixedTrace))) =
      [⟨"Shop", "find", some 3, some "/srv/a.ts"⟩, ⟨"", "", some 5, some "/srv/main.ts"⟩,
        ⟨"com.shop.Cart", "total", some 42, some "Cart.java"⟩,
        ⟨"com.shop.Cart", "<init>", none, none⟩, ⟨"", "place", some 12, some "/srv/api.py"⟩,
        ⟨"Server", "handle", some 42, some "/srv/orders.go"⟩,
        ⟨"service", "Place", some 17, some "/srv/service.go"⟩] := by
  have hnewline : Text.IsNewline ['\n'] := .inr ⟨'\n', by decide, rfl⟩
  have hunbroken : ((linesBelow mixedTrace).all fun line => line.all fun c => !isLineBreak c) =
      true := by
    decide +kernel
  have hbreaks : ∀ line ∈ linesBelow mixedTrace, ∀ c ∈ line, isLineBreak c = false := by
    simpa using hunbroken
  have htold : AllTold mixedTrace := by decide +kernel
  refine ⟨hnewline, hbreaks, htold, by decide +kernel, ?_⟩
  rw [(parseTrace_linesBelow hnewline hbreaks htold).1]
  decide +kernel

/-- A line with a column whose name holds a call of the form that is tried first. -/
def callInName : ColumnForm where
  indent := .ofText "    " (by decide)
  gap := .ofText " " (by decide) (by decide)
  caller := some (none,
    { name :=
        { qualifier := some (.ofText "a" (by decide))
          last := .ofText "b()" (by decide)
          ne_nil := by simp }
      gap := .ofText " " (by decide) (by decide) })
  place :=
    { path := .ofText "x.js" (by decide) (by decide)
      number := decimal 1
      column := decimal 2
      closed := true
      trailing := .ofText "" (by decide) }

/-- The line is read as that call, and its own place is lost. -/
theorem parseTrace_callInName :
    String.ofList callInName.line = "    at a.b() (x.js:1:2)" ∧
    (callInName.line.all fun c => !isLineBreak c) = true ∧
    callInName.frame = ⟨"a", "b()", some 1, some "x.js"⟩ ∧
    parseTrace (String.ofList callInName.line) = [⟨"a", "b", none, none⟩] ∧
    parseTrace (String.ofList callInName.line) ≠ [callInName.frame] := by
  decide +kernel

end CodeAtlas.Frame
