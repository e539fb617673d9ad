import CodeAtlas.Proofs.Json.Scanned
import CodeAtlas.Text.Lines

/-!
# Written values read back

A value whose objects repeat no name is written so that reading gives it back. The written text is
cut into the tokens of the value whatever the indentation, and the tokens drive the machine from a
value that is awaited to that value finished. Every value that is read from a text is of this kind.
-/

namespace CodeAtlas.Json

/-- A value that writing keeps whole: no object repeats a name. -/
inductive Plain {τ : Type} : Json τ → Prop where
  | null : Plain .null
  | bool (b : Bool) : Plain (.bool b)
  | int (n : Int) : Plain (.int n)
  | decimal (x : Double) : Plain (.decimal x)
  | string (s : τ) : Plain (.string s)
  | array {items : List (Json τ)} (hitems : ∀ v ∈ items, Plain v) : Plain (.array items)
  | object {fields : List (τ × Json τ)} (hnames : (fields.map (·.1)).Nodup)
      (hfields : ∀ f ∈ fields, Plain f.2) : Plain (.object fields)

section Plain

variable {τ : Type}

@[simp] theorem plain_null : (null : Json τ).Plain := .null

@[simp] theorem plain_bool (b : Bool) : (bool b : Json τ).Plain := .bool b

@[simp] theorem plain_int (n : Int) : (int n : Json τ).Plain := .int n

@[simp] theorem plain_decimal (x : Double) : (decimal x : Json τ).Plain := .decimal x

@[simp] theorem plain_string (s : τ) : (string s).Plain := .string s

@[simp] theorem plain_array_iff {items : List (Json τ)} :
    (array items).Plain ↔ ∀ v ∈ items, v.Plain :=
  ⟨fun h => by cases h; assumption, .array⟩

@[simp] theorem plain_object_iff {fields : List (τ × Json τ)} :
    (object fields).Plain ↔ (fields.map (·.1)).Nodup ∧ ∀ f ∈ fields, f.2.Plain :=
  ⟨fun h => by cases h; exact ⟨‹_›, ‹_›⟩, fun h => .object h.1 h.2⟩

end Plain

section Tokens

variable {τ : Type}

mutual
/-- The tokens of a written value. -/
def writtenTokens : Json τ → List (Token τ)
  | .array items => .openArray :: itemTokens items ++ [.closeArray]
  | .object fields => .openObject :: fieldTokens fields ++ [.closeObject]
  | .string s => [.text s]
  | v => [.scalar v]

/-- The tokens of items between commas. -/
def itemTokens : List (Json τ) → List (Token τ)
  | [] => []
  | [v] => writtenTokens v
  | v :: rest => writtenTokens v ++ .comma :: itemTokens rest

/-- The tokens of fields between commas. -/
def fieldTokens : List (τ × Json τ) → List (Token τ)
  | [] => []
  | [(k, v)] => .text k :: .colon :: writtenTokens v
  | (k, v) :: rest => .text k :: .colon :: writtenTokens v ++ .comma :: fieldTokens rest
end

end Tokens

/-! ## Cutting a text into tokens -/

section Cutting

variable {τ : Type} [Wording τ]

/-- A text that is cut into some tokens, each of which leaves a shorter rest. -/
inductive Lexes : List Char → List (Token τ) → Prop where
  | done {cs : List Char} (hspace : cs.dropWhile isSpace = []) : Lexes cs []
  | token {cs rest : List Char} {c : Char} {r : List Char} {t : Token τ} {ts : List (Token τ)}
      (hstart : cs.dropWhile isSpace = c :: r) (hscan : scanToken (c :: r) = some (t, rest))
      (hshorter : rest.length < cs.length) (hrest : Lexes rest ts) : Lexes cs (t :: ts)

/-- A count above the length of the text suffices for its tokens. -/
theorem Lexes.tokensWithin {cs : List Char} {ts : List (Token τ)} (h : Lexes cs ts) {fuel : Nat}
    (hfuel : cs.length < fuel) : tokensWithin fuel cs = some ts := by
  induction h generalizing fuel with
  | done hspace =>
    obtain ⟨fuel, rfl⟩ : ∃ n, fuel = n + 1 := ⟨fuel - 1, by omega⟩
    simp [Json.tokensWithin, hspace]
  | token hstart hscan hshorter _ ih =>
    obtain ⟨fuel, rfl⟩ : ∃ n, fuel = n + 1 := ⟨fuel - 1, by omega⟩
    have hrest := @ih fuel (by omega)
    simp [Json.tokensWithin, hstart, hscan, hrest]

theorem Lexes.tokens {cs : List Char} {ts : List (Token τ)} (h : Lexes cs ts) :
    tokens cs = some ts :=
  h.tokensWithin (Nat.lt_succ_self _)

/-- White space before a text does not show among its tokens. -/
theorem Lexes.space {c : Char} {cs : List Char} {ts : List (Token τ)} (hc : isSpace c = true)
    (h : Lexes cs ts) : Lexes (c :: cs) ts := by
  cases h with
  | done hspace => exact .done (by rw [List.dropWhile_cons_of_pos hc, hspace])
  | token hstart hscan hshorter hrest =>
    refine .token (by rw [List.dropWhile_cons_of_pos hc, hstart]) hscan ?_ hrest
    exact Nat.lt_succ_of_lt hshorter

/-- The start of a line does not show among the tokens. -/
theorem Lexes.newline {cs : List Char} {ts : List (Token τ)} (level : Nat) (h : Lexes cs ts) :
    Lexes (newline level ++ cs) ts := by
  have hblanks (n : Nat) : Lexes (List.replicate n ' ' ++ cs) ts := by
    induction n with
    | zero => exact h
    | succ n ih => exact ih.space rfl
  exact (hblanks (2 * level)).space rfl

/-- A text that begins with a written token is cut after it. -/
theorem Lexes.written {w rest : List Char} {t : Token τ} {ts : List (Token τ)}
    (hscan : scanToken (w ++ rest) = some (t, rest)) (hw : ∃ c ∈ w.head?, isSpace c = false)
    (h : Lexes rest ts) : Lexes (w ++ rest) (t :: ts) := by
  obtain ⟨c, hc, hspace⟩ := hw
  cases w with
  | nil => cases hc
  | cons d w =>
    obtain rfl : d = c := Option.some.inj hc
    refine .token (List.dropWhile_cons_of_neg (by simp [hspace])) hscan ?_ h
    rw [List.length_append, List.length_cons]
    omega

/-- A comma and the start of the next line are cut as the comma. -/
theorem Lexes.nextLine {cs : List Char} {ts : List (Token τ)} (level : Nat) (h : Lexes cs ts) :
    Lexes (',' :: (Json.newline level ++ cs)) (.comma :: ts) :=
  .written (w := [',']) rfl ⟨',', rfl, rfl⟩ (h.newline level)

/-- The first character of a written number is no white space. -/
theorem head?_sign_append (negative : Bool) {cs : List Char} {p : Numeral × List Char}
    (h : scanNumeral cs = some p) :
    ∃ c ∈ ((if negative then ['-'] else []) ++ cs).head?, isSpace c = false := by
  obtain ⟨c, rest, rfl, hc⟩ := exists_digit_of_scanNumeral h
  cases negative with
  | false =>
    have hne {d : Char} (hd : d.isDigit = false) : (c == d) = false :=
      beq_eq_false_iff_ne.2 (ne_of_isDigit hc hd)
    refine ⟨c, rfl, ?_⟩
    rw [isSpace, hne (by decide), hne (by decide), hne (by decide), hne (by decide)]
    rfl
  | true => exact ⟨'-', rfl, rfl⟩

theorem head?_toString_int (n : Int) : ∃ c ∈ (toString n).toList.head?, isSpace c = false := by
  cases n with
  | ofNat m =>
    have hdigits := scanNumeral_toDigits m delimited_nil
    rw [List.append_nil] at hdigits
    rw [toList_toString_ofNat]
    exact head?_sign_append false hdigits
  | negSucc m => exact ⟨'-', by rw [toList_toString_negSucc]; rfl, rfl⟩

theorem head?_written (x : Double) : ∃ c ∈ x.written.head?, isSpace c = false := by
  cases x with
  | notANumber => exact ⟨'N', rfl, rfl⟩
  | signed negative code =>
    unfold Double.written Double.textWith
    dsimp only
    by_cases hinfinite : code.val = Double.infinite
    · rw [if_pos hinfinite]
      cases negative
      · exact ⟨'I', rfl, rfl⟩
      · exact ⟨'-', rfl, rfl⟩
    · rw [if_neg hinfinite]
      exact head?_sign_append negative (scanNumeral_codeText code)

/-- Any layout of a value, followed by what lexes, is cut into the tokens of the value first. -/
def CutWhole (v : Json τ) : Prop :=
  ∀ (level : Nat) {rest : List Char} {ts : List (Token τ)}, Delimited rest → Lexes rest ts →
    Lexes (prettyChars level v ++ rest) (writtenTokens v ++ ts)

/-- Items on lines of their own are cut into their tokens and the commas between them. -/
theorem lexes_items {items : List (Json τ)} (hitems : ∀ v ∈ items, CutWhole v) (level : Nat)
    {rest : List Char} {ts : List (Token τ)} (hdelimited : Delimited rest) (h : Lexes rest ts) :
    Lexes (prettyItems level items ++ rest) (itemTokens items ++ ts) := by
  induction items with
  | nil => exact h
  | cons v items ih =>
    have hv := hitems v (List.mem_cons_self ..)
    cases items with
    | nil => exact hv (level + 1) hdelimited h
    | cons w items =>
      have hrest := ih fun u hu => hitems u (List.mem_cons_of_mem _ hu)
      have hcut := hv (level + 1) (delimited_comma _) (hrest.nextLine (level + 1))
      simpa [prettyItems, itemTokens] using hcut

theorem lexes_fields [LawfulWording τ] {fields : List (τ × Json τ)}
    (hfields : ∀ f ∈ fields, CutWhole f.2)
    (level : Nat) {rest : List Char} {ts : List (Token τ)} (hdelimited : Delimited rest)
    (h : Lexes rest ts) :
    Lexes (prettyFields level fields ++ rest) (fieldTokens fields ++ ts) := by
  -- one field: its name, the colon and its value
  have hone {k : τ} {v : Json τ} (hv : CutWhole v) {rest : List Char} {ts : List (Token τ)}
      (hdelimited : Delimited rest) (h : Lexes rest ts) :
      Lexes (writtenText k ++ (':' :: ' ' :: (prettyChars (level + 1) v ++ rest)))
        (.text k :: .colon :: (writtenTokens v ++ ts)) := by
    have hvalue := (hv (level + 1) hdelimited h).space (c := ' ') rfl
    have hcolon : Lexes (':' :: ' ' :: (prettyChars (level + 1) v ++ rest))
        (.colon :: (writtenTokens v ++ ts)) :=
      .written (w := [':']) rfl ⟨':', rfl, rfl⟩ hvalue
    exact .written (scanToken_writtenText k _) ⟨'"', rfl, rfl⟩ hcolon
  induction fields with
  | nil => exact h
  | cons f fields ih =>
    obtain ⟨k, v⟩ := f
    have hv : CutWhole v := hfields (k, v) (List.mem_cons_self ..)
    cases fields with
    | nil => simpa [prettyFields, fieldTokens] using hone (k := k) hv hdelimited h
    | cons g fields =>
      have hrest := ih fun u hu => hfields u (List.mem_cons_of_mem _ hu)
      have hcut := hone (k := k) hv (delimited_comma _) (hrest.nextLine (level + 1))
      simpa [prettyFields, fieldTokens] using hcut

/-- A plain value is cut into its tokens. -/
theorem Plain.cutWhole [LawfulWording τ] {v : Json τ} (h : v.Plain) : CutWhole v := by
  induction h with
  | null => exact fun _ _ _ _ h => .written (w := "null".toList) rfl ⟨'n', rfl, rfl⟩ h
  | bool b =>
    cases b with
    | true => exact fun _ _ _ _ h => .written (w := "true".toList) rfl ⟨'t', rfl, rfl⟩ h
    | false => exact fun _ _ _ _ h => .written (w := "false".toList) rfl ⟨'f', rfl, rfl⟩ h
  | int n =>
    exact fun _ _ _ hdelimited h => .written (scanToken_int n hdelimited) (head?_toString_int n) h
  | decimal x =>
    exact fun _ _ _ hdelimited h => .written (scanToken_decimal x hdelimited) (head?_written x) h
  | string s => exact fun _ _ _ _ h => .written (scanToken_writtenText s _) ⟨'"', rfl, rfl⟩ h
  | @array items _ ih =>
    intro level rest ts _ h
    have hclose : Lexes (']' :: rest) (.closeArray :: ts) :=
      .written (w := [']']) rfl ⟨']', rfl, rfl⟩ h
    cases items with
    | nil => exact .written (w := ['[']) rfl ⟨'[', rfl, rfl⟩ hclose
    | cons v items =>
      have hitems := lexes_items ih level (delimited_newline level _) (hclose.newline level)
      have hopen : Lexes ('[' :: (Json.newline (level + 1) ++ _)) (.openArray :: _) :=
        .written (w := ['[']) rfl ⟨'[', rfl, rfl⟩ (hitems.newline (level + 1))
      simpa [prettyChars, writtenTokens] using hopen
  | @object fields _ _ ih =>
    intro level rest ts _ h
    have hclose : Lexes ('\x7d' :: rest) (.closeObject :: ts) :=
      .written (w := ['\x7d']) rfl ⟨'\x7d', rfl, rfl⟩ h
    cases fields with
    | nil => exact .written (w := ['\x7b']) rfl ⟨'\x7b', rfl, rfl⟩ hclose
    | cons f fields =>
      have hfields := lexes_fields ih level (delimited_newline level _) (hclose.newline level)
      have hopen : Lexes ('\x7b' :: (Json.newline (level + 1) ++ _)) (.openObject :: _) :=
        .written (w := ['\x7b']) rfl ⟨'\x7b', rfl, rfl⟩ (hfields.newline (level + 1))
      simpa [prettyChars, writtenTokens] using hopen

end Cutting

/-! ## From tokens to values -/

section Machine

variable {τ : Type}

/-- The tokens of a value begin with one that closes nothing. -/
theorem exists_writtenTokens_eq_cons (v : Json τ) :
    ∃ t ts, writtenTokens v = t :: ts ∧ t ≠ .closeArray := by
  cases v with
  | null => exact ⟨_, _, rfl, nofun⟩
  | bool => exact ⟨_, _, rfl, nofun⟩
  | int => exact ⟨_, _, rfl, nofun⟩
  | decimal => exact ⟨_, _, rfl, nofun⟩
  | string => exact ⟨_, _, rfl, nofun⟩
  | array => exact ⟨.openArray, _, by rw [writtenTokens]; rfl, nofun⟩
  | object => exact ⟨.openObject, _, by rw [writtenTokens]; rfl, nofun⟩

variable [DecidableEq τ]

theorem Expecting.run_cons (s : Expecting τ) (t : Token τ) (ts : List (Token τ)) :
    s.run (t :: ts) = (s.step t).bind fun s => s.run ts := rfl

/-- The tokens of a value take the machine from awaiting a value to that value. -/
def RunsWhole (v : Json τ) : Prop :=
  ∀ (stack : List (Frame τ)) (ts : List (Token τ)),
    (Expecting.value stack).run (writtenTokens v ++ ts) = (Expecting.finished stack v).run ts

/-- Where an array may be closed, a value is its first item. -/
theorem run_itemOrClose (v : Json τ) (stack : List (Frame τ)) (ts : List (Token τ)) :
    (Expecting.itemOrClose stack).run (writtenTokens v ++ ts) =
      (Expecting.value (.array [] :: stack)).run (writtenTokens v ++ ts) := by
  obtain ⟨t, us, hwritten, hclose⟩ := exists_writtenTokens_eq_cons v
  rw [hwritten, List.cons_append, Expecting.run_cons, Expecting.run_cons]
  congr 1
  unfold Expecting.step
  split <;> simp_all

/-- Items and the end of their array complete the array. -/
theorem run_items {v : Json τ} {items : List (Json τ)} (hitems : ∀ w ∈ v :: items, RunsWhole w)
    (done : List (Json τ)) (stack : List (Frame τ)) (ts : List (Token τ)) :
    (Expecting.value (.array done :: stack)).run
        (itemTokens (v :: items) ++ .closeArray :: ts) =
      (Expecting.finished stack (.array (done.reverse ++ v :: items))).run ts := by
  induction items generalizing v done with
  | nil =>
    have hv := hitems v (List.mem_cons_self ..)
    rw [itemTokens, hv, Expecting.run_cons]
    simp [Expecting.step]
  | cons w items ih =>
    have hv := hitems v (List.mem_cons_self ..)
    have hrest := ih (fun u hu => hitems u (List.mem_cons_of_mem _ hu)) (v :: done)
    have htokens : itemTokens (v :: w :: items) ++ .closeArray :: ts =
        writtenTokens v ++ .comma :: (itemTokens (w :: items) ++ .closeArray :: ts) := by
      simp [itemTokens]
    rw [htokens, hv, Expecting.run_cons]
    simpa [Expecting.step] using hrest

/-- A field whose name is not among those before it goes to the end. -/
theorem put_of_new_name {done rest : List (τ × Json τ)} {k : τ} {v : Json τ}
    (hnames : ((done ++ (k, v) :: rest).map (·.1)).Nodup) (w : Json τ) :
    Dict.put k w done = done ++ [(k, w)] := by
  have hnew : k ∉ done.map (·.1) := by
    rw [List.map_append, List.nodup_append] at hnames
    exact fun hmem => hnames.2.2 k hmem k (List.mem_cons_self ..) rfl
  exact Dict.entries_insert_of_new (d := ⟨done⟩) hnew w

/-- A name, the colon and a value after the fields so far, whose names are others. -/
theorem run_field {k : τ} {v : Json τ} (hv : RunsWhole v) (done : List (τ × Json τ))
    (stack : List (Frame τ)) (ts : List (Token τ)) :
    (Expecting.nextName stack done).run (.text k :: .colon :: (writtenTokens v ++ ts)) =
      (Expecting.finished (.object done k :: stack) v).run ts := by
  rw [Expecting.run_cons, Expecting.step, Option.bind_some, Expecting.run_cons, Expecting.step,
    Option.bind_some, hv]

/-- Fields with new names and the end of their object complete the object. -/
theorem run_fields {f : τ × Json τ} {fields : List (τ × Json τ)}
    (hfields : ∀ g ∈ f :: fields, RunsWhole g.2) (done : List (τ × Json τ))
    (hnames : ((done ++ f :: fields).map (·.1)).Nodup) (stack : List (Frame τ))
    (ts : List (Token τ)) :
    (Expecting.nextName stack done).run (fieldTokens (f :: fields) ++ .closeObject :: ts) =
      (Expecting.finished stack (.object (done ++ f :: fields))).run ts := by
  induction fields generalizing f done with
  | nil =>
    obtain ⟨k, v⟩ := f
    have hput := put_of_new_name hnames v
    have hv : RunsWhole v := hfields (k, v) (List.mem_cons_self ..)
    have htokens : fieldTokens [(k, v)] ++ .closeObject :: ts =
        .text k :: .colon :: (writtenTokens v ++ .closeObject :: ts) := by
      simp [fieldTokens]
    rw [htokens, run_field hv, Expecting.run_cons, Expecting.step, Option.bind_some, hput]
  | cons g fields ih =>
    obtain ⟨k, v⟩ := f
    have hput := put_of_new_name hnames v
    have hv : RunsWhole v := hfields (k, v) (List.mem_cons_self ..)
    have htokens : fieldTokens ((k, v) :: g :: fields) ++ .closeObject :: ts =
        .text k :: .colon :: (writtenTokens v ++
          .comma :: (fieldTokens (g :: fields) ++ .closeObject :: ts)) := by
      simp [fieldTokens]
    have hrest := ih (fun u hu => hfields u (List.mem_cons_of_mem _ hu)) (done ++ [(k, v)])
      (by simpa using hnames)
    rw [htokens, run_field hv, Expecting.run_cons, Expecting.step, Option.bind_some, hput, hrest]
    simp

/-- The tokens of a plain value drive the machine to that value. -/
theorem Plain.runsWhole {v : Json τ} (h : v.Plain) : RunsWhole v := by
  induction h with
  | null => exact fun _ _ => rfl
  | bool => exact fun _ _ => rfl
  | int => exact fun _ _ => rfl
  | decimal => exact fun _ _ => rfl
  | string => exact fun _ _ => rfl
  | @array items _ ih =>
    intro stack ts
    cases items with
    | nil => rfl
    | cons v items =>
      have hitems := run_items ih [] stack ts
      have htokens : writtenTokens (.array (v :: items)) ++ ts =
          .openArray :: (itemTokens (v :: items) ++ .closeArray :: ts) := by
        simp [writtenTokens]
      obtain ⟨us, hus⟩ : ∃ us, itemTokens (v :: items) = writtenTokens v ++ us := by
        cases items with
        | nil => exact ⟨[], by simp [itemTokens]⟩
        | cons w items => exact ⟨_, by rw [itemTokens]; simp⟩
      rw [htokens, Expecting.run_cons, Expecting.step, Expecting.beginValue, Option.bind_some]
      rw [hus, List.append_assoc] at hitems ⊢
      rw [run_itemOrClose, hitems]
      rfl
  | @object fields hnames _ ih =>
    intro stack ts
    cases fields with
    | nil => rfl
    | cons f fields =>
      have hfields := run_fields ih [] hnames stack ts
      have htokens : writtenTokens (.object (f :: fields)) ++ ts =
          .openObject :: (fieldTokens (f :: fields) ++ .closeObject :: ts) := by
        simp [writtenTokens]
      obtain ⟨us, hus⟩ : ∃ us, fieldTokens (f :: fields) = .text f.1 :: us := by
        cases fields with
        | nil => exact ⟨_, by rw [fieldTokens]⟩
        | cons g fields =>
          exact ⟨.colon :: (writtenTokens f.2 ++ .comma :: fieldTokens (g :: fields)),
            by simp [fieldTokens]⟩
      rw [htokens, Expecting.run_cons, Expecting.step, Expecting.beginValue, Option.bind_some]
      -- the first name is taken alike whether the object may still be closed or not
      rw [hus, List.cons_append, Expecting.run_cons] at hfields ⊢
      exact hfields

end Machine

section Reading

variable {τ : Type} [DecidableEq τ] [Wording τ] [LawfulWording τ] {v : Json τ}

/-- A plain value is read back from its written form, whatever white space follows that. -/
theorem Plain.readAs_pretty_append (h : v.Plain) {rest : String}
    (hspace : rest.toList.dropWhile isSpace = []) (hdelimited : Delimited rest.toList) :
    readAs τ (v.pretty ++ rest) = .ok v := by
  have htokens : tokens (v.pretty ++ rest).toList = some (writtenTokens v) := by
    have hcut := h.cutWhole 0 hdelimited (.done hspace)
    rw [List.append_nil] at hcut
    rw [String.toList_append, pretty, String.toList_ofList]
    exact hcut.tokens
  have hrun : (Expecting.value []).run (writtenTokens v) = some (.finished [] v) := by
    have hwhole := h.runsWhole [] []
    rw [List.append_nil] at hwhole
    exact hwhole
  have hread : readAs? τ (v.pretty ++ rest) = some v := by
    rw [readAs?, htokens]
    simp [hrun]
  rw [readAs, hread]

/-- A plain value is read back from its written form. -/
theorem Plain.readAs_pretty (h : v.Plain) : readAs τ v.pretty = .ok v := by
  have hread : readAs τ (v.pretty ++ "") = .ok v := h.readAs_pretty_append rfl delimited_nil
  rwa [String.append_empty] at hread

theorem Plain.read_pretty_append {v : Json} (h : v.Plain) {rest : String}
    (hspace : rest.toList.dropWhile isSpace = []) (hdelimited : Delimited rest.toList) :
    read (v.pretty ++ rest) = .ok v :=
  h.readAs_pretty_append hspace hdelimited

theorem Plain.read_pretty {v : Json} (h : v.Plain) : read v.pretty = .ok v :=
  h.readAs_pretty

end Reading

/-! ## Values that are read -/

section Values

variable {τ : Type}

/-- The values of words and numbers have no parts. -/
theorem plain_of_scanToken [Wording τ] {cs rest : List Char} {v : Json τ}
    (h : scanToken cs = some (.scalar v, rest)) : v.Plain := by
  have hnumber (negative : Bool) (n : Numeral) : (ofNumeral negative n : Json τ).Plain := by
    cases n with
    | whole n => exact .int _
    | decimal code => exact .decimal _
  unfold scanToken at h
  split at h
  case h_8 =>
    obtain ⟨p, -, heq⟩ := Option.map_eq_some_iff.1 h
    cases heq
  case h_9 =>
    split at h
    · next w rest' hword =>
      obtain ⟨p, hp, heq⟩ := Option.map_eq_some_iff.1 hword
      have hmem := List.mem_of_find?_eq_some hp
      cases heq
      cases h
      simp only [words, List.mem_cons, List.not_mem_nil, or_false] at hmem
      rcases hmem with rfl | rfl | rfl | rfl | rfl | rfl
      · exact .null
      · exact .bool true
      · exact .bool false
      · exact .decimal _
      · exact .decimal _
      · exact .decimal _
    · obtain ⟨p, hp, heq⟩ := Option.map_eq_some_iff.1 h
      obtain ⟨q, -, rfl⟩ := Option.map_eq_some_iff.1 hp
      cases heq
      exact hnumber _ _
  all_goals cases h

theorem plain_of_mem_tokensWithin [Wording τ] {fuel : Nat} {cs : List Char} {ts : List (Token τ)}
    (h : tokensWithin fuel cs = some ts) {v : Json τ} (hv : .scalar v ∈ ts) : v.Plain := by
  induction fuel generalizing cs ts with
  | zero => cases h
  | succ fuel ih =>
    unfold tokensWithin at h
    split at h
    · cases h
      cases hv
    · obtain ⟨⟨t, rest⟩, hscan, h⟩ := Option.bind_eq_some_iff.1 h
      obtain ⟨us, hrest, h⟩ := Option.bind_eq_some_iff.1 h
      cases h
      rcases List.mem_cons.1 hv with rfl | hv
      · exact plain_of_scanToken hscan
      · exact ih hrest hv

/-- Fields with distinct names and plain values. -/
def PlainFields (fields : List (τ × Json τ)) : Prop :=
  (fields.map (·.1)).Nodup ∧ ∀ f ∈ fields, f.2.Plain

/-- What is open holds plain values so far. -/
def Frame.Plain : Frame τ → Prop
  | .array items => ∀ v ∈ items, v.Plain
  | .object fields _ => PlainFields fields

/-- What is open holds plain values so far, and so does what was finished last. -/
def Expecting.Plain : Expecting τ → Prop
  | .value stack => ∀ f ∈ stack, f.Plain
  | .itemOrClose stack => ∀ f ∈ stack, f.Plain
  | .nameOrClose stack => ∀ f ∈ stack, f.Plain
  | .nextName stack fields => (∀ f ∈ stack, f.Plain) ∧ PlainFields fields
  | .colon stack fields _ => (∀ f ∈ stack, f.Plain) ∧ PlainFields fields
  | .finished stack v => (∀ f ∈ stack, f.Plain) ∧ v.Plain

theorem Expecting.plain_beginValue {stack : List (Frame τ)} {t : Token τ} {s : Expecting τ}
    (hstack : ∀ f ∈ stack, f.Plain) (ht : ∀ v, t = .scalar v → v.Plain)
    (h : beginValue stack t = some s) : s.Plain := by
  unfold beginValue at h
  split at h
  · cases h
    exact ⟨hstack, ht _ rfl⟩
  · cases h
    exact ⟨hstack, .string _⟩
  · cases h
    exact hstack
  · cases h
    exact hstack
  · cases h

variable [DecidableEq τ]

theorem PlainFields.put {fields : List (τ × Json τ)} (h : PlainFields fields) (k : τ) {v : Json τ}
    (hv : v.Plain) : PlainFields (Dict.put k v fields) := by
  refine ⟨Dict.nodup_keys_insert (d := ⟨fields⟩) h.1 k v, fun f hf => ?_⟩
  rcases Dict.mem_values_insert (d := ⟨fields⟩) (List.mem_map_of_mem hf) with heq | hold
  · exact heq ▸ hv
  · obtain ⟨g, hg, heq⟩ := List.mem_map.1 hold
    exact heq ▸ h.2 g hg

/-- A token adds a plain value to what is open or closes it. -/
theorem Expecting.Plain.step {s s' : Expecting τ} (hs : s.Plain) {t : Token τ}
    (ht : ∀ v, t = .scalar v → v.Plain) (h : s.step t = some s') : s'.Plain := by
  unfold Expecting.step at h
  split at h
  case h_1 => exact plain_beginValue hs ht h
  case h_2 =>
    cases h
    exact ⟨hs, .array nofun⟩
  case h_3 =>
    have hopen : (Frame.array ([] : List (Json τ))).Plain := fun _ hv => absurd hv List.not_mem_nil
    exact plain_beginValue (List.forall_mem_cons.2 ⟨hopen, hs⟩) ht h
  case h_4 =>
    cases h
    exact ⟨hs, .object List.nodup_nil nofun⟩
  case h_5 =>
    cases h
    exact ⟨hs, List.nodup_nil, nofun⟩
  case h_6 =>
    cases h
    exact hs
  case h_7 =>
    cases h
    exact List.forall_mem_cons.2 ⟨hs.2, hs.1⟩
  case h_8 =>
    cases h
    obtain ⟨hstack, hv⟩ := hs
    obtain ⟨hitems, hstack⟩ := List.forall_mem_cons.1 hstack
    exact List.forall_mem_cons.2 ⟨List.forall_mem_cons.2 ⟨hv, hitems⟩, hstack⟩
  case h_9 =>
    cases h
    obtain ⟨hstack, hv⟩ := hs
    obtain ⟨hitems, hstack⟩ := List.forall_mem_cons.1 hstack
    refine ⟨hstack, .array fun w hw => ?_⟩
    exact List.forall_mem_cons.2 ⟨hv, hitems⟩ w (List.mem_reverse.1 hw)
  case h_10 =>
    cases h
    obtain ⟨hstack, hv⟩ := hs
    obtain ⟨hfields, hstack⟩ := List.forall_mem_cons.1 hstack
    exact ⟨hstack, PlainFields.put hfields _ hv⟩
  case h_11 =>
    cases h
    obtain ⟨hstack, hv⟩ := hs
    obtain ⟨hfields, hstack⟩ := List.forall_mem_cons.1 hstack
    exact ⟨hstack, .object (PlainFields.put hfields _ hv).1 (PlainFields.put hfields _ hv).2⟩
  case h_12 => cases h

theorem Expecting.Plain.run {s s' : Expecting τ} (hs : s.Plain) {ts : List (Token τ)}
    (hts : ∀ v, .scalar v ∈ ts → v.Plain) (h : s.run ts = some s') : s'.Plain := by
  induction ts generalizing s with
  | nil =>
    cases h
    exact hs
  | cons t ts ih =>
    obtain ⟨m, hm, h⟩ := Option.bind_eq_some_iff.1 h
    exact ih (hs.step (fun v hv => hts v (hv ▸ List.mem_cons_self ..)) hm)
      (fun v hv => hts v (List.mem_cons_of_mem _ hv)) h

/-- A value that is read repeats no name: the last field of a name replaces the others. -/
theorem plain_of_readAs [Wording τ] {s : String} {v : Json τ} (h : readAs τ s = .ok v) :
    v.Plain := by
  have hread : readAs? τ s = some v := by
    unfold readAs at h
    split at h
    · cases h
      assumption
    · cases h
  obtain ⟨ts, hts, hread⟩ := Option.bind_eq_some_iff.1 hread
  obtain ⟨e, he, hread⟩ := Option.bind_eq_some_iff.1 hread
  have hplain := Expecting.Plain.run (s := .value []) nofun
    (fun w hw => plain_of_mem_tokensWithin hts hw) he
  split at hread
  · cases hread
    exact hplain.2
  · cases hread

end Values

/-! ## Characters of written values -/

theorem return_not_mem_sign (negative : Bool) {cs : List Char} {n : Numeral}
    (h : scanNumeral cs = some (n, [])) : '\r' ∉ (if negative then ['-'] else []) ++ cs := by
  have hcs : '\r' ∉ cs := not_mem_of_scanNumeral (by decide) (by decide) h
  cases negative <;> simp [hcs]

theorem return_not_mem_toString (n : Int) : '\r' ∉ (toString n).toList := by
  have hdigits (m : Nat) : scanNumeral (Nat.toDigits 10 m) = some (.whole m, []) := by
    simpa using scanNumeral_toDigits m delimited_nil
  cases n with
  | ofNat m =>
    rw [toList_toString_ofNat]
    exact return_not_mem_sign false (hdigits m)
  | negSucc m =>
    rw [toList_toString_negSucc]
    exact return_not_mem_sign true (hdigits (m + 1))

theorem return_not_mem_written (x : Double) : '\r' ∉ x.written := by
  cases x with
  | notANumber => exact (by decide : '\r' ∉ "NaN".toList)
  | signed negative code =>
    unfold Double.written Double.textWith
    dsimp only
    by_cases hinfinite : code.val = Double.infinite
    · rw [if_pos hinfinite]
      cases negative <;> decide
    · rw [if_neg hinfinite]
      exact return_not_mem_sign negative (scanNumeral_codeText code)

theorem return_not_mem_newline (level : Nat) : '\r' ∉ newline level := by
  simp [newline, List.mem_replicate]

section Characters

variable {τ : Type} [Wording τ]

theorem return_not_mem_items {items : List (Json τ)}
    (hitems : ∀ v ∈ items, ∀ level, '\r' ∉ prettyChars level v) (level : Nat) :
    '\r' ∉ prettyItems level items := by
  induction items with
  | nil => exact List.not_mem_nil
  | cons v items ih =>
    have hv := hitems v (List.mem_cons_self ..) (level + 1)
    have hrest := ih fun w hw => hitems w (List.mem_cons_of_mem _ hw)
    cases items with
    | nil => exact hv
    | cons w items => simp [prettyItems, hv, hrest, return_not_mem_newline]

variable [LawfulWording τ]

/-- A written text has no return: it is written as an escape. -/
theorem return_not_mem_writtenText (t : τ) : '\r' ∉ writtenText t := by
  simp [writtenText, LawfulWording.return_not_mem_escaped]

theorem return_not_mem_fields {fields : List (τ × Json τ)}
    (hfields : ∀ f ∈ fields, ∀ level, '\r' ∉ prettyChars level f.2) (level : Nat) :
    '\r' ∉ prettyFields level fields := by
  induction fields with
  | nil => exact List.not_mem_nil
  | cons f fields ih =>
    obtain ⟨k, v⟩ := f
    have hv := hfields (k, v) (List.mem_cons_self ..) (level + 1)
    have hrest := ih fun g hg => hfields g (List.mem_cons_of_mem _ hg)
    cases fields with
    | nil => simp [prettyFields, hv, return_not_mem_writtenText]
    | cons g fields =>
      simp [prettyFields, hv, hrest, return_not_mem_writtenText, return_not_mem_newline]

/-- Whatever its layout, a written plain value has no return. -/
theorem Plain.return_not_mem {v : Json τ} (h : v.Plain) (level : Nat) :
    '\r' ∉ prettyChars level v := by
  induction h generalizing level with
  | null => exact (by decide : '\r' ∉ "null".toList)
  | bool b =>
    cases b with
    | true => exact (by decide : '\r' ∉ "true".toList)
    | false => exact (by decide : '\r' ∉ "false".toList)
  | int n => exact return_not_mem_toString n
  | decimal x => exact return_not_mem_written x
  | string s => exact return_not_mem_writtenText s
  | @array items _ ih =>
    cases items with
    | nil => simp [prettyChars]
    | cons v items => simp [prettyChars, return_not_mem_items ih, return_not_mem_newline]
  | @object fields _ _ ih =>
    cases fields with
    | nil => simp [prettyChars]
    | cons f fields => simp [prettyChars, return_not_mem_fields ih, return_not_mem_newline]

/-- A written plain value has line feeds as its only breaks. -/
theorem Plain.unified_pretty {v : Json τ} (h : v.Plain) : Text.unified v.pretty = v.pretty :=
  Text.unified_of_not_mem (by rw [pretty, String.toList_ofList]; exact h.return_not_mem 0)

end Characters

end CodeAtlas.Json
