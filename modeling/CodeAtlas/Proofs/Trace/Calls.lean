import CodeAtlas.Proofs.Trace.Read

/-!
# Calls and their places

A call names a package, perhaps a receiver, and a function, and its place is on the line after it.
The package is the shortest that a member follows, the path of the place the longest that a line
follows. For the fields of a call and of a place these are the package and the path.
-/

namespace CodeAtlas.Frame

open Text (Run Piece Stops isBlank isDigit isWord dropBlankStart dropBlankEnd)

/-! ## Members -/

theorem callAtEnd?_eq_some {cs name : List Char} :
    callAtEnd? cs = some name ↔
      ∃ (word : Piece isWord) (arguments : List Char) (trailing : Run isBlank),
        cs = word.text ++ '(' :: arguments ++ ')' :: trailing.text ∧ word.text = name := by
  constructor
  · intro h
    obtain ⟨word, rest, rfl, hrest⟩ := Text.exists_run isWord cs
    simp only [callAtEnd?, Text.takeWhile_append_of_stops word.all hrest,
      Text.dropWhile_append_of_stops word.all hrest] at h
    split at h
    · next arguments =>
      split at h
      · next hend =>
        cases h
        simp only [Bool.and_eq_true, Bool.not_eq_true', List.isEmpty_eq_false_iff,
          decide_eq_true_eq] at hend
        obtain ⟨trailing, htrailing⟩ := Text.exists_trailing arguments
        refine ⟨⟨word, hend.1⟩, (dropBlankEnd arguments).dropLast, trailing, ?_, rfl⟩
        rw [← List.dropLast_append_getLast? _ hend.2] at htrailing
        simpa using htrailing
      · cases h
    · cases h
  · rintro ⟨word, arguments, trailing, rfl, rfl⟩
    have hend : dropBlankEnd (arguments ++ ')' :: trailing.text) = arguments ++ [')'] := by
      rw [List.append_cons]
      refine Text.dropBlankEnd_append trailing.all fun c hc => ?_
      rw [List.getLast?_concat, Option.mem_some] at hc
      exact hc ▸ by decide
    have hrest : Stops isWord ('(' :: (arguments ++ ')' :: trailing.text)) :=
      Text.stops_cons.2 (by decide)
    rw [List.append_assoc, List.cons_append, callAtEnd?,
      Text.takeWhile_append_of_stops word.all hrest, Text.dropWhile_append_of_stops word.all hrest]
    simp [hend, word.ne_nil]

/-- A word in front of a parenthesis and a dot, and what follows these. -/
def closedWord? (cs : List Char) : Option (List Char × List Char) :=
  match cs.dropWhile isWord with
  | ')' :: '.' :: rest =>
    if (cs.takeWhile isWord).isEmpty then none else some (cs.takeWhile isWord, rest)
  | _ => none

theorem closedWord?_eq_some {cs type rest : List Char} :
    closedWord? cs = some (type, rest) ↔
      ∃ word : Piece isWord, cs = word.text ++ ").".toList ++ rest ∧ word.text = type := by
  constructor
  · intro h
    obtain ⟨word, behind, rfl, hstops⟩ := Text.exists_run isWord cs
    rw [closedWord?, Text.takeWhile_append_of_stops word.all hstops,
      Text.dropWhile_append_of_stops word.all hstops] at h
    split at h
    · split at h
      · cases h
      next hne =>
      cases h
      exact ⟨⟨word, by simpa using hne⟩, by simp, rfl⟩
    · cases h
  · rintro ⟨word, rfl, rfl⟩
    have hstops : Stops isWord (").".toList ++ rest) := Text.stops_cons.2 (by decide)
    rw [List.append_assoc, closedWord?, Text.takeWhile_append_of_stops word.all hstops,
      Text.dropWhile_append_of_stops word.all hstops]
    simp [word.ne_nil]

theorem receiver?_cons (cs : List Char) :
    receiver? ('(' :: cs) = closedWord? (match cs with
      | '*' :: rest => rest
      | _ => cs) := rfl

theorem receiver?_plain {cs : List Char} (h : cs.head? ≠ some '*') :
    receiver? ('(' :: cs) = closedWord? cs := by
  rw [receiver?_cons]
  split
  · next rest => exact absurd rfl h
  · rfl

theorem Receiver.receiver?_text (r : Receiver) (rest : List Char) :
    receiver? (r.text ++ rest) = some (r.type.text, rest) := by
  obtain ⟨pointer, type⟩ := r
  have hword := closedWord?_eq_some.2 ⟨type, Eq.refl (type.text ++ ").".toList ++ rest), rfl⟩
  cases pointer with
  | true => simpa [Receiver.text, receiver?_cons] using hword
  | false =>
    have hstar : (type.text ++ ").".toList ++ rest).head? ≠ some '*' := by
      rw [List.append_assoc]
      exact type.head?_ne (by decide) _
    rw [← receiver?_plain hstar] at hword
    simpa [Receiver.text] using hword

theorem exists_receiver {cs type rest : List Char} (h : receiver? cs = some (type, rest)) :
    ∃ r : Receiver, cs = r.text ++ rest := by
  obtain ⟨after, rfl⟩ : ∃ after, cs = '(' :: after := by
    unfold receiver? at h
    split at h
    · next after => exact ⟨after, rfl⟩
    · cases h
  by_cases hstar : after.head? = some '*'
  · obtain ⟨after, rfl⟩ := List.head?_eq_some_iff.1 hstar
    obtain ⟨word, rfl, -⟩ := closedWord?_eq_some.1 ((receiver?_cons _).symm.trans h)
    exact ⟨⟨true, word⟩, by simp [Receiver.text]⟩
  · obtain ⟨word, rfl, -⟩ := closedWord?_eq_some.1 ((receiver?_plain hstar).symm.trans h)
    exact ⟨⟨false, word⟩, by simp [Receiver.text]⟩

theorem receiver?_eq_none {cs : List Char} (h : cs.head? ≠ some '(') : receiver? cs = none := by
  rw [Option.eq_none_iff_forall_ne_some]
  rintro ⟨type, rest⟩ hread
  obtain ⟨r, rfl⟩ := exists_receiver hread
  exact h rfl

theorem member?_eq_some {cs name : List Char} {type : Option (List Char)} :
    member? cs = some (type, name) ↔
      ∃ m : Member, m.text = cs ∧ m.receiver.map (·.type.text) = type ∧ m.name.text = name := by
  unfold member?
  constructor
  · intro h
    split at h
    · next type rest hreceiver =>
      obtain ⟨found, hcall, hmember⟩ := Option.map_eq_some_iff.1 h
      obtain ⟨word, arguments, trailing, rfl, rfl⟩ := callAtEnd?_eq_some.1 hcall
      obtain ⟨r, rfl⟩ := exists_receiver hreceiver
      rw [r.receiver?_text] at hreceiver
      cases hmember
      cases hreceiver
      exact ⟨⟨some r, word, arguments, trailing⟩, by simp [Member.text], rfl, rfl⟩
    · obtain ⟨found, hcall, hmember⟩ := Option.map_eq_some_iff.1 h
      obtain ⟨word, arguments, trailing, rfl, rfl⟩ := callAtEnd?_eq_some.1 hcall
      cases hmember
      exact ⟨⟨none, word, arguments, trailing⟩, by simp [Member.text], rfl, rfl⟩
  · rintro ⟨⟨receiver, word, arguments, trailing⟩, rfl, rfl, rfl⟩
    have hcall := callAtEnd?_eq_some.2 ⟨word, arguments, trailing, rfl, rfl⟩
    cases receiver with
    | some r =>
      have hreceiver := r.receiver?_text (word.text ++ '(' :: arguments ++ ')' :: trailing.text)
      have htext : (Member.mk (some r) word arguments trailing).text =
          r.text ++ (word.text ++ '(' :: arguments ++ ')' :: trailing.text) := by
        simp [Member.text]
      simp only [htext, hreceiver, hcall, Option.map_some]
    | none =>
      have hhead : (word.text ++ '(' :: arguments ++ ')' :: trailing.text).head? ≠ some '(' := by
        rw [List.append_assoc]
        exact word.head?_ne (by decide) _
      simp only [Member.text, Option.elim_none, List.nil_append, receiver?_eq_none hhead, hcall,
        Option.map_some, Option.map_none]

/-- A member has no dot in front of its first parenthesis. -/
theorem Member.exists_head (m : Member) :
    ∃ head rest, m.text = head ++ '(' :: rest ∧ ∀ c ∈ head, isWord c = true := by
  obtain ⟨receiver, name, arguments, trailing⟩ := m
  cases receiver with
  | none => exact ⟨name.text, arguments ++ ')' :: trailing.text, by simp [text], name.all⟩
  | some r => exact ⟨[], _, by simp [text, Receiver.text]; rfl, by simp⟩

/-- What has a dot in front of every parenthesis is no member. -/
theorem member?_eq_none {start : List Char} (h : '(' ∉ start) (rest : List Char) :
    member? (start ++ '.' :: rest) = none := by
  rw [Option.eq_none_iff_forall_ne_some]
  rintro ⟨type, name⟩ hread
  obtain ⟨m, hm, -, -⟩ := member?_eq_some.1 hread
  obtain ⟨head, after, hhead, hword⟩ := m.exists_head
  have hparenthesis : ∀ c ∈ head, decide (c ≠ '(') = true := fun c hc =>
    decide_eq_true fun heq => absurd (hword c hc) (heq ▸ by decide)
  obtain ⟨between, behind, rfl, hbehind⟩ := Text.exists_run (· ≠ '(') rest
  have hstart : ∀ c ∈ start ++ '.' :: between.text, decide (c ≠ '(') = true := by
    intro c hc
    simp only [List.mem_append, List.mem_cons] at hc
    obtain hc | rfl | hc := hc
    · exact decide_eq_true fun heq => h (heq ▸ hc)
    · decide
    · exact between.all c hc
  -- both sides split at the first parenthesis, so the dot would be in the member's name
  have hsplit : head ++ '(' :: after = (start ++ '.' :: between.text) ++ behind := by
    rw [← hhead, hm]
    simp
  obtain ⟨rfl, -⟩ :=
    Text.run_unique hsplit hparenthesis (Text.stops_cons.2 (by simp)) hstart hbehind
  exact absurd (hword '.' (by simp)) (by decide)

/-! ## Packages -/

/-- The shortest package is read: dots inside of it have no member behind them. -/
theorem packageAndMember?_append (m : Member) {package passed : List Char}
    (hpackage : ∀ c ∈ package, isPackageChar c = true) (hne : passed ++ package ≠ []) :
    packageAndMember? passed (package ++ '.' :: m.text) =
      some (passed.reverse ++ package, m.receiver.map (·.type.text), m.name.text) := by
  have hmember : member? m.text = some (m.receiver.map (·.type.text), m.name.text) :=
    member?_eq_some.2 ⟨m, rfl, rfl, rfl⟩
  induction package generalizing passed with
  | nil =>
    rw [List.append_nil] at hne
    simp [packageAndMember?, hne, hmember]
  | cons c rest ih =>
    rw [List.forall_mem_cons] at hpackage
    have hlater : member? (rest ++ '.' :: m.text) = none :=
      member?_eq_none (fun hmem => absurd (hpackage.2 _ hmem) (by decide)) m.text
    rw [List.cons_append, packageAndMember?, hlater]
    simp [hpackage.1, ih hpackage.2]

theorem exists_package {passed cs package name : List Char} {type : Option (List Char)}
    (hpassed : ∀ c ∈ passed, isPackageChar c = true)
    (h : packageAndMember? passed cs = some (package, type, name)) :
    ∃ (field : Piece isPackageChar) (m : Member),
      passed.reverse ++ cs = field.text ++ '.' :: m.text := by
  induction cs generalizing passed with
  | nil => cases h
  | cons c rest ih =>
    simp only [packageAndMember?] at h
    split at h
    · next found type name hhere =>
      split at hhere
      · next hdot =>
        simp only [Bool.and_eq_true, decide_eq_true_eq, Bool.not_eq_true',
          List.isEmpty_eq_false_iff] at hdot
        obtain ⟨rfl, hne⟩ := hdot
        obtain ⟨m, rfl, -, -⟩ := member?_eq_some.1 hhere
        have hreverse : ∀ c ∈ passed.reverse, isPackageChar c = true :=
          fun c hc => hpassed c (List.mem_reverse.1 hc)
        exact ⟨⟨⟨passed.reverse, hreverse⟩, by simpa using hne⟩, m, rfl⟩
      · cases hhere
    · split at h
      · next hc =>
        obtain ⟨field, m, hsplit⟩ := ih (List.forall_mem_cons.2 ⟨hc, hpassed⟩) h
        exact ⟨field, m, by simpa using hsplit⟩
      · cases h

theorem CallForm.packageAndMember?_line (f : CallForm) :
    packageAndMember? [] f.line =
      some (f.package.text, f.member.receiver.map (·.type.text), f.member.name.text) := by
  refine packageAndMember?_append f.member (f.package.all (by decide)) ?_
  simpa using f.package.text_ne_nil

theorem isCallLine_iff {line : List Char} :
    IsCallLine line ↔ (packageAndMember? [] line).isSome := by
  constructor
  · rintro ⟨f, rfl⟩
    rw [f.packageAndMember?_line]
    rfl
  · intro h
    obtain ⟨⟨package, type, name⟩, hread⟩ := Option.isSome_iff_exists.1 h
    obtain ⟨field, m, hline⟩ := exists_package (by simp) hread
    obtain ⟨package, hpackage⟩ := exists_qualified '/' field
    exact ⟨⟨package, m⟩, by simpa [CallForm.line, hpackage] using hline.symm⟩

/-! ## Places -/

/-- The place that is read at the ending `.go` behind so many characters of a word. -/
def placeAt? (word : List Char) (i : Nat) : Option (List Char × Int) := do
  let rest ← after? ".go:" (word.drop i)
  let (n, _) ← takeNumber? rest
  return (word.take i ++ ".go".toList, n)

/-- The positions in a word, the last one first. -/
def positions (word : List Char) : List Nat :=
  ((List.range word.length).filter (0 < ·)).reverse

theorem mem_positions {word : List Char} {i : Nat} :
    i ∈ positions word ↔ 0 < i ∧ i < word.length := by
  simp [positions, and_comm]

theorem pairwise_positions (word : List Char) : (positions word).Pairwise (· > ·) := by
  rw [positions, List.pairwise_reverse]
  exact List.pairwise_lt_range.filter _

theorem indentedPlace?_append (indent : Piece isBlank) {word rest : List Char}
    (hword : ∀ c ∈ word, isSolid c = true) (hrest : Stops isSolid rest)
    (hafter : Stops isBlank (word ++ rest)) :
    indentedPlace? (indent.text ++ (word ++ rest)) =
      (positions word).findSome? (placeAt? word) := by
  have hindent : dropBlankStart (indent.text ++ (word ++ rest)) = word ++ rest :=
    Text.dropWhile_append_of_stops indent.all hafter
  obtain ⟨c, cs, hcs⟩ := List.exists_cons_of_ne_nil indent.ne_nil
  have hc : isBlank c = true := indent.all c (by simp [hcs])
  rw [hcs, List.cons_append] at hindent ⊢
  simp only [indentedPlace?, hc, Bool.not_true, Bool.false_eq_true, if_false, hindent,
    takeWhile_word hword hrest]
  rfl

theorem placeAt?_eq_some {word path : List Char} {i : Nat} {n : Int} :
    placeAt? word i = some (path, n) ↔ ∃ (number : Piece isDigit) (rest : List Char),
      word.drop i = ".go:".toList ++ number.text ++ rest ∧ Stops isDigit rest ∧
        path = word.take i ++ ".go".toList ∧ numberOf number = n := by
  simp only [placeAt?, Option.bind_eq_bind, Option.bind_eq_some_iff, after?_eq_some]
  constructor
  · rintro ⟨after, hdrop, ⟨m, rest⟩, htaken, hplace⟩
    obtain ⟨number, rfl, hstops, rfl⟩ := takeNumber?_eq_some.1 htaken
    cases hplace
    exact ⟨number, rest, by simpa using hdrop, hstops, rfl, rfl⟩
  · rintro ⟨number, rest, hdrop, hstops, rfl, rfl⟩
    exact ⟨number.text ++ rest, by simpa using hdrop, (numberOf number, rest),
      takeNumber?_eq_some.2 ⟨number, rfl, hstops, rfl⟩, rfl⟩

/-- The first answer in a falling list is that of the largest number with one. -/
theorem findSome?_of_largest {α : Type} {f : Nat → Option α} {starts : List Nat}
    (hsorted : starts.Pairwise (· > ·)) {i : Nat} (hi : i ∈ starts) {a : α} (ha : f i = some a)
    (hlarger : ∀ j ∈ starts, i < j → f j = none) : starts.findSome? f = some a := by
  obtain ⟨before, after, rfl⟩ := List.append_of_mem hi
  have hbefore : before.findSome? f = none := by
    rw [List.findSome?_eq_none_iff]
    intro j hj
    exact hlarger j (by simp [hj]) ((List.pairwise_append.1 hsorted).2.2 j hj i (by simp))
  simp [hbefore, ha]

/-- A line that is not indented is no place. -/
theorem indentedPlace?_of_stops {line : List Char} (h : Stops isBlank line) :
    indentedPlace? line = none := by
  cases line with
  | nil => rfl
  | cons c cs => simp [indentedPlace?, Text.stops_cons.1 h]

theorem isSolid_of_mem_place {stem : Piece isSolid} {number : Piece isDigit} {c : Char}
    (hc : c ∈ stem.text ++ ".go:".toList ++ number.text) : isSolid c = true := by
  have hending : ∀ c ∈ ".go:".toList, isSolid c = true := List.all_eq_true.1 (by decide)
  simp only [List.mem_append] at hc
  obtain (hstem | hmem) | hnumber := hc
  · exact stem.all c hstem
  · exact hending c hmem
  · exact isSolid_eq_true.2 (isBlank_of_isDigit (number.all c hnumber))

/-- The digits of the line hold no further ending `.go`. -/
theorem placeAt?_eq_none {stem : List Char} {number : Piece isDigit} {i : Nat}
    (h : stem.length < i) : placeAt? (stem ++ ".go:".toList ++ number.text) i = none := by
  rw [Option.eq_none_iff_forall_ne_some]
  rintro ⟨path, n⟩ hread
  obtain ⟨other, rest, hdrop, -⟩ := placeAt?_eq_some.1 hread
  have hword : stem ++ ".go:".toList ++ number.text =
      (stem ++ ['.']) ++ ("go:".toList ++ number.text) := by simp
  rw [hword, List.drop_append, List.drop_eq_nil_of_le (by simp; omega), List.nil_append] at hdrop
  have hdot : '.' ∈ "go:".toList ++ number.text := by
    refine List.mem_of_mem_drop (i := i - (stem ++ ['.']).length) ?_
    rw [hdrop]
    simp
  have hdigits : '.' ∉ number.text := not_mem_of_run number.toRun (by decide)
  simp [hdigits] at hdot

theorem PlaceForm.indentedPlace?_line (f : PlaceForm) :
    indentedPlace? f.line = some (f.stem.text ++ ".go".toList, numberOf f.number) := by
  have hline : f.line =
      f.indent.text ++ ((f.stem.text ++ ".go:".toList ++ f.number.text) ++ f.rest) := by
    simp [line]
  have hafter : Stops isBlank ((f.stem.text ++ ".go:".toList ++ f.number.text) ++ f.rest) := by
    simpa using stops_word f.stem (".go:".toList ++ (f.number.text ++ f.rest))
  have hplace : placeAt? (f.stem.text ++ ".go:".toList ++ f.number.text) f.stem.text.length =
      some (f.stem.text ++ ".go".toList, numberOf f.number) :=
    placeAt?_eq_some.2 ⟨f.number, [], by simp, Text.stops_nil, by simp, rfl⟩
  have hposition : f.stem.text.length ∈ positions (f.stem.text ++ ".go:".toList ++ f.number.text) :=
    mem_positions.2 ⟨List.length_pos_iff.2 f.stem.ne_nil, by simp⟩
  rw [hline, indentedPlace?_append f.indent (fun _ => isSolid_of_mem_place) f.stops hafter]
  exact findSome?_of_largest (pairwise_positions _) hposition hplace
    fun j _ hj => placeAt?_eq_none hj

theorem isSome_placeAt? (stem : List Char) (number : Piece isDigit) (rest : List Char) :
    (placeAt? (stem ++ ".go:".toList ++ number.text ++ rest) stem.length).isSome := by
  obtain ⟨digits, after, rfl, hafter⟩ := Text.exists_run isDigit rest
  have hdigits : ∀ c ∈ number.text ++ digits.text, isDigit c = true := by
    rw [List.forall_mem_append]
    exact ⟨number.all, digits.all⟩
  have hdrop : (stem ++ ".go:".toList ++ number.text ++ (digits.text ++ after)).drop stem.length =
      ".go:".toList ++ (number.text ++ digits.text) ++ after := by
    simp
  rw [Option.isSome_iff_exists]
  exact ⟨_, placeAt?_eq_some.2 ⟨⟨⟨number.text ++ digits.text, hdigits⟩, by simp [number.ne_nil]⟩,
    after, hdrop, hafter, rfl, rfl⟩⟩

theorem isPlaceLine_iff {line : List Char} : IsPlaceLine line ↔ (indentedPlace? line).isSome := by
  constructor
  · rintro ⟨indent, stem, number, rest, rfl⟩
    obtain ⟨more, after, rfl, hstops⟩ := Text.exists_run isSolid rest
    have hsolid : ∀ c ∈ stem.text ++ ".go:".toList ++ number.text ++ more.text,
        isSolid c = true := by
      rw [List.forall_mem_append]
      exact ⟨fun _ => isSolid_of_mem_place, more.all⟩
    have hafter : Stops isBlank
        ((stem.text ++ ".go:".toList ++ number.text ++ more.text) ++ after) := by
      simpa using stops_word stem (".go:".toList ++ (number.text ++ (more.text ++ after)))
    have happend := indentedPlace?_append indent hsolid hstops hafter
    have hposition : stem.text.length ∈
        positions (stem.text ++ ".go:".toList ++ number.text ++ more.text) :=
      mem_positions.2 ⟨List.length_pos_iff.2 stem.ne_nil, by simp⟩
    simp only [List.append_assoc] at happend hposition ⊢
    rw [happend, List.findSome?_isSome_iff]
    exact ⟨_, hposition, by simpa using isSome_placeAt? stem.text number more.text⟩
  · intro h
    obtain ⟨indent, after, rfl, hafter⟩ := Text.exists_run isBlank line
    obtain ⟨word, rest, rfl, hrest⟩ := Text.exists_run isSolid after
    have hindent : indent.text ≠ [] := by
      intro hempty
      rw [hempty, List.nil_append, indentedPlace?_of_stops hafter] at h
      cases h
    have happend := indentedPlace?_append ⟨indent, hindent⟩ word.all hrest hafter
    rw [happend, List.findSome?_isSome_iff] at h
    obtain ⟨i, hi, hsome⟩ := h
    obtain ⟨⟨path, n⟩, hplace⟩ := Option.isSome_iff_exists.1 hsome
    obtain ⟨number, behind, hdrop, -⟩ := placeAt?_eq_some.1 hplace
    have hstem : word.text.take i ≠ [] := by
      obtain ⟨hpos, hlt⟩ := mem_positions.1 hi
      exact List.ne_nil_of_length_pos (by rw [List.length_take]; omega)
    have hsplit : word.text = word.text.take i ++ (".go:".toList ++ number.text ++ behind) := by
      rw [← hdrop, List.take_append_drop]
    have hsolid : ∀ c ∈ word.text.take i, isSolid c = true :=
      fun c hc => word.all c (List.mem_of_mem_take hc)
    refine ⟨⟨indent, hindent⟩, ⟨⟨word.text.take i, hsolid⟩, hstem⟩, number, behind ++ rest, ?_⟩
    calc indent.text ++ (word.text ++ rest)
        = indent.text ++
            (word.text.take i ++ (".go:".toList ++ number.text ++ behind) ++ rest) := by
          rw [← hsplit]
      _ = _ := by simp

/-! ## Both lines -/

/-- What is behind the last separator, or the whole text if there is none. -/
theorem Qualified.getD_cutLast? {sep : Char} {p : Char → Bool} (q : Qualified sep p) :
    ((cutLast? sep q.text).map (·.2)).getD q.text = q.last.text := by
  rw [q.cutLast?_text]
  cases hq : q.qualifier with
  | none => simp [text, hq]
  | some run => rfl

theorem CallForm.ofCallLines?_line (f : CallForm) (place : PlaceForm) :
    ofCallLines? f.line place.line = some (f.frame place) := by
  simp only [ofCallLines?, f.packageAndMember?_line, place.indentedPlace?_line,
    f.package.getD_cutLast?, Option.bind_eq_bind, Option.bind_some]
  unfold frame
  cases f.member.receiver <;> rfl

theorem ofCallLines?_eq_none {line next : List Char} (h : IsCallLine line → ¬IsPlaceLine next) :
    ofCallLines? line next = none := by
  by_cases hcall : IsCallLine line
  · have hplace : indentedPlace? next = none := by
      simpa [isPlaceLine_iff] using h hcall
    rw [ofCallLines?, hplace]
    cases packageAndMember? [] line <;> rfl
  · have hline : packageAndMember? [] line = none := by
      simpa [isCallLine_iff] using hcall
    rw [ofCallLines?, hline]
    rfl

end CodeAtlas.Frame
