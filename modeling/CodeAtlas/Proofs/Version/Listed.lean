import CodeAtlas.Version.Git
import CodeAtlas.Proofs.Text.Runs
import CodeAtlas.Proofs.Text.Split

/-!
# Listings of changed files

Version control writes a path with a quote, a backslash, a control character or a byte outside of
ASCII between quotes and with escapes, so that no path has a tab or a line break when it is
listed. This file defines listings, and proves which names are read from one: every path as it is
written. That is the path itself for plain paths only; from the other names it could be found by
undoing the quotes.
-/

namespace CodeAtlas

theorem firstOccurrences_map {α β : Type} [DecidableEq α] [DecidableEq β] {f : α → β}
    (hf : Function.Injective f) (xs : List α) :
    firstOccurrences (xs.map f) = (firstOccurrences xs).map f := by
  induction xs using List.reverseRecOn with
  | nil => rfl
  | append_singleton xs x ih =>
    have hmem : f x ∈ (firstOccurrences xs).map f ↔ x ∈ firstOccurrences xs :=
      List.mem_map_of_injective hf
    unfold firstOccurrences at ih hmem ⊢
    rw [List.map_append, List.foldl_append, List.foldl_append, ih]
    simp only [List.map_cons, List.map_nil, List.foldl_cons, List.foldl_nil, appendNew, hmem]
    split
    · rfl
    · rw [List.map_append, List.map_singleton]

namespace Text

/-- The lines of a text are those it is made of. -/
theorem linesOf_flatMap {lines : List (List Char)}
    (h : ∀ line ∈ lines, ∀ c ∈ line, isLineBreak c = false) :
    linesOf (lines.flatMap fun line => line ++ ['\n']) = lines := by
  have hreturn : '\r' ∉ lines.flatMap fun line => line ++ ['\n'] := by
    intro hmem
    obtain ⟨line, hline, hc⟩ := List.mem_flatMap.1 hmem
    have hc : '\r' ∈ line := by simpa using hc
    exact absurd (h line hline _ hc) (by decide)
  rw [linesOf, unifyBreaks_of_not_mem hreturn]
  clear hreturn
  induction lines with
  | nil => rfl
  | cons line rest ih =>
    rw [List.flatMap_cons, List.append_assoc, List.singleton_append,
      linesFrom_append_break (h line List.mem_cons_self) (by decide),
      ih fun l hl => h l (List.mem_cons_of_mem _ hl)]
    rfl

theorem mem_intercalate {sep c : Char} {fields : List (List Char)}
    (hc : c ∈ [sep].intercalate fields) : c = sep ∨ ∃ field ∈ fields, c ∈ field := by
  induction fields with
  | nil => simp at hc
  | cons field fields ih =>
    cases fields with
    | nil => exact Or.inr ⟨field, List.mem_cons_self, by simpa using hc⟩
    | cons next fields =>
      rw [List.intercalate_cons_cons, List.mem_append, List.mem_append, List.mem_singleton] at hc
      obtain (hc | hc) | hc := hc
      · exact Or.inr ⟨field, List.mem_cons_self, hc⟩
      · exact Or.inl hc
      · obtain hc | ⟨f, hf, hc⟩ := ih hc
        · exact Or.inl hc
        · exact Or.inr ⟨f, List.mem_cons_of_mem _ hf, hc⟩

end Text

namespace Diff

/-! ## Written paths -/

/-- The three digits of a number. -/
def threeDigits (base n : Nat) : List Char :=
  [Nat.digitChar (n / base / base % base), Nat.digitChar (n / base % base),
    Nat.digitChar (n % base)]

/-- The bytes that are escaped by a letter. -/
def escapeLetters : List (UInt8 × Char) :=
  [(0x07, 'a'), (0x08, 'b'), (0x09, 't'), (0x0A, 'n'), (0x0B, 'v'), (0x0C, 'f'), (0x0D, 'r'),
    (0x22, '"'), (0x5C, '\\')]

/-- Whether the byte is a printable character other than the quote and the backslash. -/
def isPlain (b : UInt8) : Bool := 0x20 ≤ b && b < 0x7F && b != 0x22 && b != 0x5C

/-- How a byte stands between quotes. -/
def escaped (b : UInt8) : List Char :=
  if isPlain b then [Char.ofUInt8 b]
  else '\\' :: match escapeLetters.find? fun entry => entry.1 = b with
    | some (_, letter) => [letter]
    | none => threeDigits 8 b.toNat

/-- A path in a listing. -/
def written (path : List UInt8) : String :=
  if path.all isPlain then String.ofList (path.map Char.ofUInt8)
  else String.ofList ('"' :: path.flatMap escaped ++ ['"'])

/-- The bytes of a name. -/
def utf8 (name : String) : List UInt8 := name.toList.flatMap String.utf8EncodeChar

/-- The value of octal digits. -/
def octalValue (digits : List Char) : Nat :=
  digits.foldl (fun value digit => 8 * value + (digit.toNat - 48)) 0

/-- The bytes that are meant by what stands between quotes. -/
def unescaped : List Char → List UInt8
  | [] => []
  | '\\' :: c :: rest =>
    match escapeLetters.find? fun entry => entry.2 = c with
    | some (b, _) => b :: unescaped rest
    | none => UInt8.ofNat (octalValue (c :: rest.take 2)) :: unescaped (rest.drop 2)
  | c :: rest => UInt8.ofNat c.toNat :: unescaped rest
termination_by cs => cs.length

/-- The path that is meant by a name in a listing. -/
def unquoted (name : String) : List UInt8 :=
  match name.toList with
  | '"' :: rest => unescaped rest.dropLast
  | _ => utf8 name

theorem toNat_ofUInt8 (b : UInt8) : (Char.ofUInt8 b).toNat = b.toNat := rfl

theorem isPlain_iff {b : UInt8} :
    isPlain b = true ↔ 0x20 ≤ b.toNat ∧ b.toNat < 0x7F ∧ b.toNat ≠ 0x22 ∧ b.toNat ≠ 0x5C := by
  simp [isPlain, UInt8.le_iff_toNat_le, UInt8.lt_iff_toNat_lt, ← UInt8.toNat_inj, and_assoc]

theorem toNat_digitChar {n : Nat} (h : n < 10) : (Nat.digitChar n).toNat = n + 48 := by
  have htable : ∀ m : Fin 10, (Nat.digitChar m).toNat = m + 48 := by decide
  exact htable ⟨n, h⟩

theorem octalValue_threeDigits {n : Nat} (h : n < 512) : octalValue (threeDigits 8 n) = n := by
  simp only [octalValue, threeDigits, List.foldl_cons, List.foldl_nil]
  rw [toNat_digitChar (by omega), toNat_digitChar (by omega), toNat_digitChar (by omega)]
  omega

theorem unescaped_cons {c : Char} (h : c ≠ '\\') (rest : List Char) :
    unescaped (c :: rest) = UInt8.ofNat c.toNat :: unescaped rest := by
  rw [unescaped]
  rintro d rest rfl
  exact absurd rfl h

/-- A letter is read as the byte that it escapes. -/
theorem unescaped_letter {b : UInt8} {letter : Char} (h : (b, letter) ∈ escapeLetters)
    (rest : List Char) : unescaped ('\\' :: letter :: rest) = b :: unescaped rest := by
  have htable : ∀ entry ∈ escapeLetters,
      (escapeLetters.find? fun e => e.2 = entry.2) = some entry := by decide
  rw [unescaped, htable (b, letter) h]

/-- Digits are no escape letters. -/
theorem unescaped_digits (b : UInt8) (rest : List Char) :
    unescaped ('\\' :: (threeDigits 8 b.toNat ++ rest)) = b :: unescaped rest := by
  have hb := b.toNat_lt
  have hdigit {n : Nat} (h : n < 8) :
      (escapeLetters.find? fun entry => entry.2 = Nat.digitChar n) = none := by
    have htable : ∀ m : Fin 8,
        (escapeLetters.find? fun entry => entry.2 = Nat.digitChar m) = none := by decide
    exact htable ⟨n, h⟩
  have hvalue : UInt8.ofNat (octalValue (threeDigits 8 b.toNat)) = b := by
    rw [octalValue_threeDigits (by omega), UInt8.ofNat_toNat]
  simp only [threeDigits, List.cons_append, List.nil_append] at hvalue ⊢
  rw [unescaped, hdigit (Nat.mod_lt _ (by decide))]
  simp only [List.take_succ_cons, List.take_zero, List.drop_succ_cons, List.drop_zero, hvalue]

/-- An escape is undone. -/
theorem unescaped_escaped (b : UInt8) (rest : List Char) :
    unescaped (escaped b ++ rest) = b :: unescaped rest := by
  unfold escaped
  split
  · next hplain =>
    obtain ⟨-, -, -, hslash⟩ := isPlain_iff.1 hplain
    have hne : Char.ofUInt8 b ≠ '\\' := fun heq => hslash (by
      rw [← toNat_ofUInt8, heq]
      rfl)
    rw [List.singleton_append, unescaped_cons hne, toNat_ofUInt8, UInt8.ofNat_toNat]
  · split
    · next a letter hletter =>
      obtain rfl : a = b := by simpa using List.find?_some hletter
      exact unescaped_letter (List.mem_of_find?_eq_some hletter) rest
    · exact unescaped_digits b rest

theorem unescaped_flatMap (path : List UInt8) : unescaped (path.flatMap escaped) = path := by
  induction path with
  | nil => simp [unescaped]
  | cons b path ih => rw [List.flatMap_cons, unescaped_escaped, ih]

/-! ## Plain names -/

theorem toNat_lt_of_isPlain {b : UInt8} (h : isPlain b = true) : b.toNat < 0x7F :=
  (isPlain_iff.1 h).2.1

/-- A character below 0x80 is its only byte. -/
theorem utf8EncodeChar_ofUInt8 {b : UInt8} (h : b.toNat < 0x80) :
    String.utf8EncodeChar (Char.ofUInt8 b) = [b] := by
  have hcode : (Char.ofUInt8 b).val.toNat = b.toNat := toNat_ofUInt8 b
  unfold String.utf8EncodeChar
  simp only [hcode]
  rw [if_pos (by omega), UInt8.ofNat_toNat]

theorem utf8_ofList_map {path : List UInt8} (h : path.all isPlain = true) :
    utf8 (String.ofList (path.map Char.ofUInt8)) = path := by
  rw [utf8, String.toList_ofList, List.flatMap_map]
  have hbyte : ∀ b ∈ path, String.utf8EncodeChar (Char.ofUInt8 b) = [b] := fun b hb =>
    utf8EncodeChar_ofUInt8 (by have := toNat_lt_of_isPlain (List.all_eq_true.1 h b hb); omega)
  rw [List.flatMap_congr hbyte, List.flatMap_singleton']

theorem utf8_injective : Function.Injective utf8 := by
  intro s t h
  refine String.toByteArray_inj.1 ?_
  rw [← String.utf8Encode_toList, ← String.utf8Encode_toList]
  exact congrArg List.toByteArray h

/-- A path that is read from its name is the path that was written. -/
theorem unquoted_written (path : List UInt8) : unquoted (written path) = path := by
  unfold written
  split
  · next hplain =>
    unfold unquoted
    split
    · next rest hrest =>
      -- no plain path begins with a quote
      rw [String.toList_ofList, List.map_eq_cons_iff] at hrest
      obtain ⟨b, rest, rfl, hb, -⟩ := hrest
      have hquote := (isPlain_iff.1 (List.all_eq_true.1 hplain b List.mem_cons_self)).2.2.1
      exact absurd ((toNat_ofUInt8 b).symm.trans (congrArg Char.toNat hb)) hquote
    · exact utf8_ofList_map hplain
  · simp [unquoted, unescaped_flatMap]

theorem written_injective : Function.Injective written :=
  Function.LeftInverse.injective unquoted_written

/-- Quotes and escapes only make a name longer. -/
theorem length_le_length_flatMap_escaped (path : List UInt8) :
    path.length ≤ (path.flatMap escaped).length := by
  induction path with
  | nil => exact Nat.le_refl 0
  | cons b path ih =>
    have hpos : 0 < (escaped b).length := by
      unfold escaped
      split <;> simp
    rw [List.flatMap_cons, List.length_append, List.length_cons]
    omega

theorem length_le_length_utf8 (name : String) : name.toList.length ≤ (utf8 name).length := by
  unfold utf8
  induction name.toList with
  | nil => exact Nat.le_refl 0
  | cons c cs ih =>
    have hpos := c.utf8Size_pos
    rw [List.flatMap_cons, List.length_append, List.length_cons, String.length_utf8EncodeChar]
    omega

/-- A path is listed under its name just if all its bytes are plain. -/
theorem written_utf8_eq_iff (name : String) :
    written (utf8 name) = name ↔ (utf8 name).all isPlain = true := by
  constructor
  · intro h
    by_contra hplain
    have hlength := congrArg (fun s => s.toList.length) h
    have hname := length_le_length_utf8 name
    have hpath := length_le_length_flatMap_escaped (utf8 name)
    rw [written, if_neg hplain, String.toList_ofList, List.length_append,
      List.length_cons] at hlength
    omega
  · intro hplain
    rw [written, if_pos hplain]
    exact utf8_injective (utf8_ofList_map hplain)

/-! ## Listings -/

/-- One entry of a difference. -/
inductive FileChange
  | added (path : List UInt8)
  | modified (path : List UInt8)
  | retyped (path : List UInt8)
  | deleted (path : List UInt8)
  | renamed (score : Fin 101) (path newPath : List UInt8)
  | copied (score : Fin 101) (path newPath : List UInt8)
  deriving DecidableEq

namespace FileChange

/-- The path under which there is a changed file. -/
def changed? : FileChange → Option (List UInt8)
  | added path | modified path | retyped path => some path
  | renamed _ _ newPath | copied _ _ newPath => some newPath
  | deleted _ => none

/-- The path under which there is no file any more. -/
def deleted? : FileChange → Option (List UInt8)
  | deleted path | renamed _ path _ => some path
  | _ => none

/-- The letter of the entry, and the score if two files are compared. -/
def status : FileChange → List Char
  | added _ => ['A']
  | modified _ => ['M']
  | retyped _ => ['T']
  | deleted _ => ['D']
  | renamed score _ _ => 'R' :: threeDigits 10 score
  | copied score _ _ => 'C' :: threeDigits 10 score

def paths : FileChange → List (List UInt8)
  | added path | modified path | retyped path | deleted path => [path]
  | renamed _ path newPath | copied _ path newPath => [path, newPath]

/-- What stands between the tabs of a line. -/
def fields (e : FileChange) : List (List Char) :=
  e.status :: e.paths.map fun path => (written path).toList

def line (e : FileChange) : List Char := ['\t'].intercalate e.fields

end FileChange

/-- The listing with a line for every entry. -/
def listing (es : List FileChange) : String :=
  String.ofList ((es.map FileChange.line).flatMap fun line => line ++ ['\n'])

/-- Whether the character is printable and in ASCII. -/
def isPrintable (c : Char) : Bool := 0x20 ≤ c.toNat && c.toNat < 0x7F

theorem all_isPrintable_threeDigits (base n : Nat) (hpos : 0 < base) (hbase : base ≤ 10) :
    (threeDigits base n).all isPrintable = true := by
  have hdigit (n : Nat) : isPrintable (Nat.digitChar (n % base)) = true := by
    have hlt := Nat.mod_lt n hpos
    unfold isPrintable
    rw [toNat_digitChar (by omega)]
    simp
    omega
  simp [threeDigits, hdigit]

theorem isPrintable_ofUInt8 {b : UInt8} (h : isPlain b = true) :
    isPrintable (Char.ofUInt8 b) = true := by
  obtain ⟨hlow, hhigh, -⟩ := isPlain_iff.1 h
  unfold isPrintable
  rw [toNat_ofUInt8]
  simp [hlow, hhigh]

theorem all_isPrintable_escaped (b : UInt8) : (escaped b).all isPrintable = true := by
  unfold escaped
  split
  · next hplain => simp [isPrintable_ofUInt8 hplain]
  · split
    · next a letter hletter =>
      have htable : ∀ entry ∈ escapeLetters, isPrintable entry.2 = true := by decide
      have hprintable := htable (a, letter) (List.mem_of_find?_eq_some hletter)
      rw [List.all_cons, List.all_cons, hprintable]
      rfl
    · have hdigits := all_isPrintable_threeDigits 8 b.toNat (by decide) (by decide)
      rw [List.all_cons, hdigits]
      rfl

/-- Whatever bytes a path has, its name is printable. -/
theorem all_isPrintable_written (path : List UInt8) :
    (written path).toList.all isPrintable = true := by
  unfold written
  split
  · next hplain =>
    rw [String.toList_ofList, List.all_map, List.all_eq_true]
    exact fun b hb => isPrintable_ofUInt8 (List.all_eq_true.1 hplain b hb)
  · rw [String.toList_ofList, List.all_append, List.all_cons, List.all_flatMap,
      List.all_eq_true.2 fun b _ => all_isPrintable_escaped b]
    rfl

namespace FileChange

theorem all_isPrintable_status (e : FileChange) : e.status.all isPrintable = true := by
  have hscore (n : Nat) := all_isPrintable_threeDigits 10 n (by decide) (by decide)
  cases e <;> simp [status, hscore, isPrintable]

theorem all_isPrintable_of_mem_fields {e : FileChange} {field : List Char} (h : field ∈ e.fields) :
    field.all isPrintable = true := by
  rcases List.mem_cons.1 h with rfl | h
  · exact e.all_isPrintable_status
  · obtain ⟨path, -, rfl⟩ := List.mem_map.1 h
    exact all_isPrintable_written path

/-- Only the breaks between lines are line breaks. -/
theorem isLineBreak_of_mem_line {e : FileChange} {c : Char} (hc : c ∈ e.line) :
    Text.isLineBreak c = false := by
  obtain rfl | ⟨field, hfield, hc⟩ := Text.mem_intercalate hc
  · decide
  · have h := List.all_eq_true.1 (all_isPrintable_of_mem_fields hfield) c hc
    simp only [isPrintable, Bool.and_eq_true, decide_eq_true_eq] at h
    simp [Text.isLineBreak]
    omega

/-- The pieces of a line are its fields. -/
theorem cutAt_line (e : FileChange) : Text.cutAt '\t' e.line = e.fields := by
  refine Text.cutAt_intercalate fun field hfield htab => ?_
  have hprintable := List.all_eq_true.1 (all_isPrintable_of_mem_fields hfield) _ htab
  exact absurd hprintable (by decide)

/-- What is read of a line are the names of its changed and of its deleted path. -/
theorem entryPaths_line (e : FileChange) :
    entryPaths (Text.cutAt '\t' e.line) =
      (e.changed?.map fun path => (written path).toList,
        e.deleted?.map fun path => (written path).toList) := by
  rw [cutAt_line]
  cases e <;> rfl

end FileChange

/-- Version control lists every change under names from which its paths can be found, and those
names are read: of changed files the paths, also the new one of a renamed or copied file, and of
deleted files the paths and the old one of a renamed file. A name is the path itself just if all
bytes of the path are plain. -/
theorem parseListing_listing (es : List FileChange) :
    (parseListing (listing es)).1 = (firstOccurrences (es.filterMap (·.changed?))).map written ∧
      (parseListing (listing es)).2 = (firstOccurrences (es.filterMap (·.deleted?))).map written ∧
      (∀ path, unquoted (written path) = path) ∧
      ∀ name : String, written (utf8 name) = name ↔ (utf8 name).all isPlain = true := by
  have hlines : Text.linesOf (listing es).toList = es.map FileChange.line := by
    rw [listing, String.toList_ofList]
    refine Text.linesOf_flatMap fun line hline c hc => ?_
    obtain ⟨e, -, rfl⟩ := List.mem_map.1 hline
    exact FileChange.isLineBreak_of_mem_line hc
  have hnames (path? : FileChange → Option (List UInt8)) :
      firstOccurrences ((es.filterMap fun e => (path? e).map fun path => (written path).toList).map
        String.ofList) = (firstOccurrences (es.filterMap path?)).map written := by
    rw [← firstOccurrences_map written_injective, List.map_filterMap, List.map_filterMap]
    simp only [Option.map_map, Function.comp_def, String.ofList_toList]
  have hentries : (es.map FileChange.line).map (fun line => entryPaths (Text.cutAt '\t' line)) =
      es.map fun e => (e.changed?.map fun path => (written path).toList,
        e.deleted?.map fun path => (written path).toList) := by
    rw [List.map_map]
    exact List.map_congr_left fun e _ => e.entryPaths_line
  have hread : parseListing (listing es) =
      ((firstOccurrences (es.filterMap FileChange.changed?)).map written,
        (firstOccurrences (es.filterMap FileChange.deleted?)).map written) := by
    rw [← hnames, ← hnames, parseListing, hlines, pathsOfLines, hentries, List.filterMap_map,
      List.filterMap_map]
    rfl
  exact ⟨congrArg Prod.fst hread, congrArg Prod.snd hread, unquoted_written, written_utf8_eq_iff⟩

/-- A changed file with a letter outside of ASCII in its name is not read as changed. -/
theorem changed_under_quoted_name :
    (parseListing (listing [.modified (utf8 "\u00E4.py")])).1 = ["\"\\303\\244.py\""] := by
  decide +kernel

end Diff

end CodeAtlas
