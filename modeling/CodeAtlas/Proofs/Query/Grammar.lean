import CodeAtlas.Proofs.Text.Trimmed
import CodeAtlas.Query.Token

/-!
# The grammar of queries

Reading a query walks its segments and stops at the first breach. This file states the grammar
on the parts of a text alone, without tokens and without an order of checks, and proves that
reading accepts exactly the texts that follow it. What was read can be written and read again.
-/

namespace CodeAtlas.Query

/-! ## The grammar -/

/-- The parts of a text: what stands between its colons, without white space around the text and
around each part. -/
def parts (s : String) : List String := (Text.split (Text.trim s) ':').map Text.trim

/-- Whether a part begins with the sign of a modifier. -/
def isModifier (part : String) : Bool := Text.startsWith part "+" || Text.startsWith part "?"

/-- What follows the sign of a modifier. -/
def afterSign (part : String) : String := Text.dropChars part 1

/-- Whether a part is a navigation: it holds something and is no modifier. -/
def isNavigation (part : String) : Bool := part ≠ "" && !isModifier part

/-- The rule for navigations: a keyword begins them, there is only one, or the second one is a
known word, which a third one follows if it is the word for a method. -/
def NavigationRule (navigations : List String) : Prop :=
  (∃ first rest, navigations = first :: rest ∧ Text.toLower first ∈ keywords) ∨
    navigations.length = 1 ∨
    ∃ first second rest, navigations = first :: second :: rest ∧
      Text.toLower second ∈ subNavigations ∧ (Text.toLower second = "method" → rest ≠ [])

/-- The grammar of queries, for the first part and the later parts of a text. -/
structure Grammatical (project : String) (later : List String) : Prop where
  /-- There are at least two parts. -/
  continued : later ≠ []
  named : project ≠ ""
  targeted : ∃ part ∈ later, part ≠ ""
  leading : ∀ part, later.find? (· ≠ "") = some part → isModifier part = false
  worded : ∀ part ∈ later, isModifier part = true → Text.isAllBlank (afterSign part) = false
  navigable : NavigationRule (later.filter isNavigation)

/-! ## Parts and tokens -/

/-- The token that a part stands for; an empty part stands for none. -/
def tokenOf? (part : String) : Option Token :=
  if part = "" then none
  else if Text.startsWith part "+" then some ⟨.include, Text.trim (afterSign part)⟩
  else if Text.startsWith part "?" then some ⟨.check, Text.trim (afterSign part)⟩
  else some ⟨.navigate, part⟩

/-- Whether a part lacks the word that its sign announces. -/
def LacksWord (part : String) : Prop :=
  isModifier part = true ∧ Text.isAllBlank (afterSign part) = true

theorem tokenOf?_eq_none_iff (part : String) : tokenOf? part = none ↔ part = "" := by
  unfold tokenOf?
  split_ifs <;> simp_all

/-- Parts that are no modifiers stand for navigations to themselves. -/
theorem tokenOf?_of_isNavigation {part : String} (h : isNavigation part = true) :
    tokenOf? part = some ⟨.navigate, part⟩ := by
  simp only [isNavigation, isModifier, Bool.and_eq_true, decide_eq_true_eq, Bool.not_eq_true',
    Bool.or_eq_false_iff] at h
  simp [tokenOf?, h.1, h.2.1, h.2.2]

/-- Other parts stand for no navigation. -/
theorem role_of_isNavigation_eq_false {part : String} (h : isNavigation part = false) {t : Token}
    (ht : tokenOf? part = some t) : t.role ≠ .navigate := by
  unfold tokenOf? at ht
  simp only [isNavigation, isModifier] at h
  split_ifs at ht with hempty hplus hcheck
  · cases ht
    simp
  · cases ht
    simp
  · simp_all

theorem wordsOf_navigate (later : List String) :
    wordsOf .navigate (later.filterMap tokenOf?) = later.filter isNavigation := by
  induction later with
  | nil => rfl
  | cons part rest ih =>
    unfold wordsOf at ih ⊢
    cases h : isNavigation part with
    | true => simp [tokenOf?_of_isNavigation h, h, ih]
    | false =>
      cases ht : tokenOf? part with
      | none => simp [ht, h, ih]
      | some t => simp [ht, h, ih, role_of_isNavigation_eq_false h ht]

/-- The first token is that of the first part that holds something. -/
theorem head?_filterMap_tokenOf? (later : List String) :
    (later.filterMap tokenOf?).head? = (later.find? (· ≠ "")).bind tokenOf? := by
  induction later with
  | nil => rfl
  | cons part rest ih =>
    by_cases h : part = ""
    · simpa [h, tokenOf?] using ih
    · cases ht : tokenOf? part with
      | none => exact absurd ((tokenOf?_eq_none_iff part).1 ht) h
      | some t => simp [h, ht]

/-! ## Reading parts -/

theorem isAllBlank_iff (s : String) : Text.isAllBlank s = true ↔ Text.trimChars s.toList = [] := by
  rw [Text.trimChars_eq_nil_iff]
  simp [Text.isAllBlank]

theorem startsWith_cons {sign : String} {d : Char} (h : sign.toList = [d]) (c : Char)
    (rest : List Char) : Text.startsWith (String.ofList (c :: rest)) sign = decide (c = d) := by
  rw [Text.startsWith, h, String.toList_ofList, List.isPrefixOf_cons_cons, List.isPrefixOf_nil_left,
    Bool.and_true, beq_eq_decide]
  simp only [eq_comm]

theorem isModifier_cons (c : Char) (rest : List Char) :
    isModifier (String.ofList (c :: rest)) = decide (c = '+' ∨ c = '?') := by
  rw [isModifier, startsWith_cons (d := '+') rfl, startsWith_cons (d := '?') rfl, Bool.decide_or]

theorem afterSign_cons (c : Char) (rest : List Char) :
    afterSign (String.ofList (c :: rest)) = String.ofList rest := by
  simp [afterSign, Text.dropChars]

theorem tokenOf?_cons (c : Char) (rest : List Char) :
    tokenOf? (String.ofList (c :: rest)) =
      if c = '+' then some ⟨.include, Text.trim (String.ofList rest)⟩
      else if c = '?' then some ⟨.check, Text.trim (String.ofList rest)⟩
      else some ⟨.navigate, String.ofList (c :: rest)⟩ := by
  rw [tokenOf?, startsWith_cons (d := '+') rfl, startsWith_cons (d := '?') rfl, afterSign_cons]
  simp

/-- Reading a part fails exactly if it lacks a word. -/
theorem tokenOfSegment_eq_ok_iff (cs : List Char) (token : Option Token) :
    tokenOfSegment cs = .ok token ↔
      ¬LacksWord (String.ofList cs) ∧ tokenOf? (String.ofList cs) = token := by
  cases cs with
  | nil => simp [tokenOfSegment, LacksWord, isModifier, Text.startsWith, tokenOf?]
  | cons c rest =>
    rw [LacksWord, isModifier_cons, afterSign_cons, isAllBlank_iff, tokenOf?_cons, tokenOfSegment,
      String.toList_ofList]
    by_cases hsign : c = '+' ∨ c = '?'
    · by_cases hword : Text.trimChars rest = []
      · simp [hsign, hword]
      · rcases hsign with rfl | rfl <;> simp [hword, Text.trim]
    · have hbare := not_or.1 hsign
      simp [hbare.1, hbare.2]

/-- Reading parts fails exactly if one of them lacks a word; else each part gives its token. -/
theorem tokensOfSegments_eq_ok_iff (segments : List (List Char)) (tokens : List Token) :
    let later := segments.map fun segment => String.ofList (Text.trimChars segment)
    tokensOfSegments segments = .ok tokens ↔
      (∀ part ∈ later, ¬LacksWord part) ∧ later.filterMap tokenOf? = tokens := by
  intro later
  induction segments generalizing tokens with
  | nil => simp [later, tokensOfSegments]
  | cons segment rest ih =>
    have hfirst := tokenOfSegment_eq_ok_iff (Text.trimChars segment)
    simp only [later, List.map_cons, List.forall_mem_cons, List.filterMap_cons]
    by_cases hlacks : LacksWord (String.ofList (Text.trimChars segment))
    · cases hseg : tokenOfSegment (Text.trimChars segment) with
      | ok token => exact absurd hlacks ((hfirst token).1 hseg).1
      | error fault => simp [tokensOfSegments, hseg, hlacks, bind, Except.bind]
    · have hseg := (hfirst _).2 ⟨hlacks, rfl⟩
      cases hrest : tokensOfSegments rest with
      | error fault =>
        have hlater := ih ((rest.map fun s => String.ofList (Text.trimChars s)).filterMap tokenOf?)
        rw [hrest] at hlater
        simp only [reduceCtorEq, and_true, false_iff] at hlater
        have hfails : tokensOfSegments (segment :: rest) = .error fault := by
          simp [tokensOfSegments, hseg, hrest, bind, Except.bind]
        rw [hfails]
        constructor
        · intro hok
          cases hok
        · rintro ⟨⟨-, hworded⟩, -⟩
          exact absurd hworded hlater
      | ok ts =>
        obtain ⟨hworded, rfl⟩ := (ih ts).1 hrest
        cases htoken : tokenOf? (String.ofList (Text.trimChars segment)) <;>
          simp_all [tokensOfSegments, bind, Except.bind, pure, Except.pure]

/-! ## Accepted texts -/

theorem parts_eq (s : String) :
    parts s = (Text.cutAt ':' (Text.trimChars s.toList)).map
      fun segment => String.ofList (Text.trimChars segment) := by
  simp [parts, Text.split, Text.trim, Function.comp_def]

/-- A query has navigations, and checking them looks for breaches of their rule. -/
theorem checkNavigation_eq_ok_iff (project first : String) (rest : List String) :
    checkNavigation project (first :: rest) = .ok () ↔ NavigationRule (first :: rest) := by
  have hkeyword : isKeyword first = true ↔ Text.toLower first ∈ keywords := by simp [isKeyword]
  cases rest with
  | nil => simp [checkNavigation, NavigationRule]
  | cons second more =>
    by_cases hfirst : Text.toLower first ∈ keywords
    · simp [checkNavigation, NavigationRule, hkeyword.2 hfirst, hfirst]
    · by_cases hsecond : Text.toLower second ∈ subNavigations
      · simp [checkNavigation, NavigationRule, hkeyword, hfirst, hsecond]
      · simp [checkNavigation, NavigationRule, hkeyword, hfirst, hsecond]

/-- The rule for tokens: the first one navigates, and the navigations follow their rule. -/
def TokenRule (tokens : List Token) : Prop :=
  (∃ token rest, tokens = token :: rest ∧ token.role = .navigate) ∧
    NavigationRule (wordsOf .navigate tokens)

/-- The grammar of parts is the rule for the tokens for which they stand. -/
theorem grammatical_iff (project : String) (later : List String) :
    Grammatical project later ↔
      project ≠ "" ∧ (∀ part ∈ later, ¬LacksWord part) ∧ TokenRule (later.filterMap tokenOf?) := by
  have hhead := head?_filterMap_tokenOf? later
  constructor
  · intro h
    refine ⟨h.named, fun part hpart hlacks => ?_, ?_, wordsOf_navigate later ▸ h.navigable⟩
    · have hblank := hlacks.2
      simp [h.worded part hpart hlacks.1] at hblank
    · obtain ⟨part, hpart, hne⟩ := h.targeted
      cases hfind : later.find? (· ≠ "") with
      | none => exact absurd hne (by simpa using List.find?_eq_none.1 hfind part hpart)
      | some first =>
        have hfirst : first ≠ "" := by simpa using List.find?_some hfind
        have hnavigation : isNavigation first = true := by
          simp [isNavigation, hfirst, h.leading first hfind]
        rw [hfind, Option.bind_some, tokenOf?_of_isNavigation hnavigation] at hhead
        obtain ⟨rest, hrest⟩ := List.head?_eq_some_iff.1 hhead
        exact ⟨_, rest, hrest, rfl⟩
  · rintro ⟨hnamed, hworded, ⟨token, rest, htokens, hrole⟩, hnavigable⟩
    rw [htokens, List.head?_cons] at hhead
    obtain ⟨first, hfind, htoken⟩ := Option.bind_eq_some_iff.1 hhead.symm
    have hmem := List.mem_of_find?_eq_some hfind
    refine ⟨List.ne_nil_of_mem hmem, hnamed, ⟨first, hmem, by simpa using List.find?_some hfind⟩,
      fun part hpart => ?_, fun part hpart hsign => ?_, wordsOf_navigate later ▸ hnavigable⟩
    · obtain rfl : first = part := Option.some.inj (hfind.symm.trans hpart)
      by_contra hsign
      have hnavigation : isNavigation first = false := by simp_all [isNavigation]
      exact role_of_isNavigation_eq_false hnavigation htoken hrole
    · have := hworded part hpart
      simpa [LacksWord, hsign] using this

theorem not_tokenRule_nil : ¬TokenRule [] := by
  rintro ⟨⟨token, rest, hnone, -⟩, -⟩
  cases hnone

theorem wordsOf_cons_of_navigate {token : Token} (h : token.role = .navigate) (rest : List Token) :
    wordsOf .navigate (token :: rest) = token.word :: wordsOf .navigate rest := by
  simp [wordsOf, h]

/-- Tokens follow the rule if the first one navigates and the check of navigations passes. -/
theorem tokenRule_cons_iff (project : String) (token : Token) (rest : List Token) :
    TokenRule (token :: rest) ↔ token.role = .navigate ∧
      checkNavigation project (wordsOf .navigate (token :: rest)) = .ok () := by
  constructor
  · rintro ⟨⟨first, others, heq, hrole⟩, hrule⟩
    obtain ⟨rfl, rfl⟩ := List.cons.inj heq
    rw [wordsOf_cons_of_navigate hrole] at hrule ⊢
    exact ⟨hrole, (checkNavigation_eq_ok_iff project _ _).2 hrule⟩
  · rintro ⟨hrole, hcheck⟩
    refine ⟨⟨token, rest, rfl, hrole⟩, ?_⟩
    rw [wordsOf_cons_of_navigate hrole] at hcheck ⊢
    exact (checkNavigation_eq_ok_iff project _ _).1 hcheck

/-- A breach ends the reading. -/
theorem throw_bind {α β : Type} (fault : Fault) (k : α → Except Fault β) :
    (throw fault >>= k) = .error fault := rfl

/-- A text is read exactly if its parts follow the grammar, and what is read are the first part
and the tokens for which the others stand. -/
theorem parse_eq_ok_iff (s : String) (q : Query) :
    parse s = .ok q ↔
      ∃ project later, parts s = project :: later ∧ Grammatical project later ∧
        q = ⟨Text.trim s, project, later.filterMap tokenOf?⟩ := by
  simp only [grammatical_iff]
  rw [parts_eq]
  unfold parse
  dsimp only
  cases hcut : Text.cutAt ':' (Text.trimChars s.toList) with
  | nil => exact absurd hcut (Text.cutAt_ne_nil _ _)
  | cons first rest =>
    cases rest with
    | nil =>
      -- without a colon there are no tokens
      split <;> simp [not_tokenRule_nil, throw, throwThe, MonadExceptOf.throw, bind, Except.bind]
    | cons second rest =>
      have hheld : (Text.trimChars s.toList).isEmpty = false := by
        rw [List.isEmpty_eq_false_iff]
        intro hempty
        rw [hempty] at hcut
        cases hcut
      have htokens := tokensOfSegments_eq_ok_iff (second :: rest)
      simp only [hheld, Bool.false_eq_true, if_false, List.map_cons (a := first), List.cons.injEq,
        String.isEmpty_iff, and_assoc, exists_and_left, exists_eq_left']
      generalize String.ofList (Text.trimChars first) = project
      generalize (second :: rest).map (fun s => String.ofList (Text.trimChars s)) =
        later at htokens ⊢
      by_cases hproject : project = ""
      · simp [hproject, throw_bind]
      simp only [if_neg hproject]
      rw [and_iff_right hproject]
      cases hread : tokensOfSegments (second :: rest) with
      | error fault =>
        have hlacking : ¬∀ part ∈ later, ¬LacksWord part := by
          intro hworded
          have hok := (htokens _).2 ⟨hworded, rfl⟩
          rw [hread] at hok
          cases hok
        simp [hlacking, bind, Except.bind]
      | ok tokens =>
        obtain ⟨hworded, rfl⟩ := (htokens tokens).1 hread
        rw [and_iff_right hworded]
        simp only [bind, Except.bind]
        cases hlater : later.filterMap tokenOf? with
        | nil => simp [not_tokenRule_nil, throw, throwThe, MonadExceptOf.throw]
        | cons token rest =>
          rw [tokenRule_cons_iff project]
          by_cases hrole : token.role = .navigate
          · cases hcheck : checkNavigation project (wordsOf .navigate (token :: rest)) with
            | error fault => simp [hrole]
            | ok _ => simp [hrole, Text.trim, pure, Except.pure, eq_comm]
          · simp [hrole, throw, throwThe, MonadExceptOf.throw]

/-- A query that was read has navigations, which follow their rule. -/
theorem navigationRule_of_parse {s : String} {q : Query} (h : parse s = .ok q) :
    ∃ target rest, q.navigations = target :: rest ∧ NavigationRule (target :: rest) := by
  obtain ⟨project, later, -, hgrammar, rfl⟩ := (parse_eq_ok_iff s q).1 h
  obtain ⟨-, -, ⟨token, rest, htokens, hrole⟩, hrule⟩ := (grammatical_iff project later).1 hgrammar
  have hwords := wordsOf_cons_of_navigate hrole rest
  rw [← htokens] at hwords
  rw [hwords] at hrule
  exact ⟨_, _, hwords, hrule⟩

/-! ## Written queries -/

/-- Whether a text can stand between colons as it is: it holds something, has no white space
around it and no colon in it. -/
structure Plain (piece : String) : Prop where
  held : piece ≠ ""
  trimmed : Text.Trimmed piece.toList
  colonless : ':' ∉ piece.toList

/-- Parts that hold something can stand between colons. -/
theorem plain_of_mem_parts {s part : String} (h : part ∈ parts s) (hne : part ≠ "") :
    Plain part := by
  rw [parts_eq] at h
  obtain ⟨segment, hsegment, rfl⟩ := List.mem_map.1 h
  refine ⟨hne, ?_, ?_⟩
  · rw [String.toList_ofList]
    exact Text.trimmed_trimChars segment
  · rw [String.toList_ofList]
    intro hcolon
    exact Text.not_mem_of_mem_cutAt hsegment ((Text.trimChars_infix segment).subset hcolon)

/-- A sign and a trimmed word can stand between colons, and give their token. -/
theorem plain_signed {c : Char} (hsign : c = '+' ∨ c = '?') {rest : List Char}
    (h : ':' ∉ rest) : Plain (String.ofList (c :: Text.trimChars rest)) := by
  refine ⟨by simp, ?_, ?_⟩
  · rw [String.toList_ofList]
    apply (Text.trimmed_trimChars rest).cons
    rcases hsign with rfl | rfl <;> rfl
  · rw [String.toList_ofList, List.mem_cons, not_or]
    refine ⟨by rcases hsign with rfl | rfl <;> decide, ?_⟩
    intro hcolon
    exact h ((Text.trimChars_infix rest).subset hcolon)

/-- A token is written as a piece that stands for this token again. -/
theorem tokenOf?_text {part : String} (hpart : Plain part) (hword : ¬LacksWord part) {t : Token}
    (ht : tokenOf? part = some t) :
    Plain t.text ∧ ¬LacksWord t.text ∧ tokenOf? t.text = some t := by
  obtain ⟨cs, rfl⟩ : ∃ cs, part = String.ofList cs := ⟨part.toList, by simp⟩
  cases cs with
  | nil => exact absurd rfl hpart.held
  | cons c rest =>
    have hcolon : ':' ∉ rest := by
      have hcolon := hpart.colonless
      rw [String.toList_ofList] at hcolon
      exact fun hmem => hcolon (List.mem_cons_of_mem _ hmem)
    have htrim := (Text.trimmed_trimChars rest).trimChars_eq
    rw [tokenOf?_cons] at ht
    by_cases hsign : c = '+' ∨ c = '?'
    · have htext : t.text = String.ofList (c :: Text.trimChars rest) := by
        rcases hsign with rfl | rfl
        · obtain rfl : ⟨.include, _⟩ = t := by simpa using ht
          simp [Token.text, Text.trim]
        · obtain rfl : ⟨.check, _⟩ = t := by simpa using ht
          simp [Token.text, Text.trim]
      rw [htext]
      refine ⟨plain_signed hsign hcolon, ?_, ?_⟩
      · rw [LacksWord, isModifier_cons, afterSign_cons, isAllBlank_iff, String.toList_ofList]
          at hword ⊢
        rwa [htrim]
      · rw [tokenOf?_cons, Text.trim, String.toList_ofList, htrim]
        rw [Text.trim, String.toList_ofList] at ht
        rcases hsign with rfl | rfl <;> simpa using ht
    · obtain rfl : t = ⟨.navigate, String.ofList (c :: rest)⟩ := by
        simpa [not_or.1 hsign, eq_comm] using ht
      refine ⟨hpart, hword, ?_⟩
      rw [Token.text, tokenOf?_cons]
      simp [not_or.1 hsign]

/-- Pieces that can stand between colons are the parts of the text that joins them. -/
theorem parts_join {piece : String} {pieces : List String}
    (h : ∀ p ∈ piece :: pieces, Plain p) :
    parts (Text.join ":" (piece :: pieces)) = piece :: pieces := by
  have hcolonless : ∀ p ∈ piece.toList :: pieces.map String.toList, ':' ∉ p := by
    rw [← List.map_cons, List.forall_mem_map]
    exact fun p hp => (h p hp).colonless
  have htrimmed : ∀ p ∈ piece.toList :: pieces.map String.toList, Text.Trimmed p ∧ p ≠ [] := by
    rw [← List.map_cons, List.forall_mem_map]
    exact fun p hp => ⟨(h p hp).trimmed, by simpa using (h p hp).held⟩
  have hwhole : Text.Trimmed (":".toList.intercalate (piece.toList :: pieces.map String.toList)) :=
    (Text.trimmed_intercalate htrimmed).1
  have hcut := Text.cutAt_intercalate hcolonless
  rw [parts_eq, Text.join, String.toList_intercalate, List.map_cons, hwhole.trimChars_eq]
  rw [show ":".toList = [':'] from rfl, hcut, ← List.map_cons, List.map_map]
  conv_rhs => rw [← List.map_id (piece :: pieces)]
  apply List.map_congr_left
  intro p hp
  simp [(h p hp).trimmed.trimChars_eq]

/-- The tokens of parts that can stand between colons are read again from what they write. -/
theorem filterMap_tokenOf?_text {tokens : List Token}
    (h : ∀ t ∈ tokens, tokenOf? t.text = some t) :
    (tokens.map Token.text).filterMap tokenOf? = tokens := by
  rw [List.filterMap_map]
  conv_rhs => rw [← List.filterMap_some (l := tokens)]
  apply List.filterMap_congr
  intro t ht
  simp [h t ht]

/-- Reading accepts exactly the texts that follow the grammar, and writing a query that was read
gives a text from which its project and its tokens are read again. -/
theorem parse_exact (s : String) :
    ((∃ q, parse s = .ok q) ↔ ∃ project later, parts s = project :: later ∧
      Grammatical project later) ∧
    ∀ q, parse s = .ok q →
      ∃ again, parse q.text = .ok again ∧ again.project = q.project ∧ again.tokens = q.tokens := by
  constructor
  · constructor
    · rintro ⟨q, hq⟩
      obtain ⟨project, later, hparts, hgrammar, -⟩ := (parse_eq_ok_iff s q).1 hq
      exact ⟨project, later, hparts, hgrammar⟩
    · rintro ⟨project, later, hparts, hgrammar⟩
      exact ⟨_, (parse_eq_ok_iff s _).2 ⟨project, later, hparts, hgrammar, rfl⟩⟩
  · intro q hq
    obtain ⟨project, later, hparts, hgrammar, rfl⟩ := (parse_eq_ok_iff s q).1 hq
    obtain ⟨hnamed, hworded, hrule⟩ := (grammatical_iff project later).1 hgrammar
    have hproject : Plain project := plain_of_mem_parts (s := s) (by simp [hparts]) hnamed
    have htokens : ∀ t ∈ later.filterMap tokenOf?,
        Plain t.text ∧ ¬LacksWord t.text ∧ tokenOf? t.text = some t := by
      intro t ht
      obtain ⟨part, hpart, htoken⟩ := List.mem_filterMap.1 ht
      have hheld : part ≠ "" := by
        intro hempty
        rw [(tokenOf?_eq_none_iff part).2 hempty] at htoken
        cases htoken
      have hplain : Plain part := plain_of_mem_parts (s := s) (by simp [hparts, hpart]) hheld
      exact tokenOf?_text hplain (hworded part hpart) htoken
    have hagain : ((later.filterMap tokenOf?).map Token.text).filterMap tokenOf? =
        later.filterMap tokenOf? := filterMap_tokenOf?_text fun t ht => (htokens t ht).2.2
    refine ⟨_, (parse_eq_ok_iff _ _).2 ⟨project, (later.filterMap tokenOf?).map Token.text,
      parts_join ?_, (grammatical_iff _ _).2 ⟨hnamed, ?_, ?_⟩, rfl⟩, rfl, hagain⟩
    · rw [List.forall_mem_cons, List.forall_mem_map]
      exact ⟨hproject, fun t ht => (htokens t ht).1⟩
    · rw [List.forall_mem_map]
      exact fun t ht => (htokens t ht).2.1
    · rwa [hagain]

/-- White space, an empty part and a sign within a word. -/
theorem parse_exact_of_spaced :
    let tokens : List Token := [⟨.navigate, "A"⟩, ⟨.include, "+logic"⟩, ⟨.check, "x"⟩]
    parse " shop : A :: + +logic : ?x " = .ok ⟨"shop : A :: + +logic : ?x", "shop", tokens⟩ ∧
      ∃ again, parse "shop:A:++logic:?x" = .ok again ∧ again.project = "shop" ∧
        again.tokens = tokens := by
  intro tokens
  have hread : parse " shop : A :: + +logic : ?x " =
      .ok ⟨"shop : A :: + +logic : ?x", "shop", tokens⟩ := by rfl
  have hagain := (parse_exact _).2 _ hread
  have htext : text ⟨"shop : A :: + +logic : ?x", "shop", tokens⟩ = "shop:A:++logic:?x" := by
    decide +kernel
  rw [htext] at hagain
  exact ⟨hread, hagain⟩

end CodeAtlas.Query
