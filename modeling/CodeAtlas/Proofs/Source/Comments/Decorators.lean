import CodeAtlas.Proofs.Source.Comments.Inserted
import CodeAtlas.Source.TypeScript
import Mathlib.Data.List.Induction

/-!
# Comments around arguments and decorators

In script modules a comment in front of the first argument of a call hides that argument, and behind
a decorator it separates the decorator from the member of a class that it decorates. This file says
where comments are harmless, and that there strings, imports, arguments and decorators are read as
they were.
-/

namespace CodeAtlas

namespace TypeScript

/-- Whether an argument is read if it is the first one: strings and functions are. -/
def isRead (t : SyntaxTree) : Bool :=
  t.isOneOf ["string", "template_string"] || t.isOneOf functionValues

/-- Whether a place is in front of a first argument that is read: of the call that a decorator or
the value of a variable is. -/
def HidesArgument (above elders : List SyntaxTree) : Prop :=
  elders = [] ∧ ∃ args call holder outer, above = args :: call :: holder :: outer ∧
    args.field = "arguments" ∧ call.type = "call_expression" ∧
    holder.isOneOf ["decorator", "variable_declarator"] = true ∧
    ∃ first ∈ args.namedChildren.head?, isRead first = true

/-- Whether a place is right in an export statement in which no members of classes are. -/
def InExport (above : List SyntaxTree) : Prop :=
  ∃ p outer, above = p :: outer ∧ p.type = "export_statement" ∧
    ∀ c ∈ p.children, c.isOneOf memberTypes = false

/-- Whether a place is right behind a decorator. -/
def FollowsDecorator (elders : List SyntaxTree) : Prop :=
  ∃ e ∈ elders.head?, e.type = "decorator"

/-- Whether a node is read by its text as a whole: identifiers and strings are, the names of
members, of functions and of what is imported, the module that a statement names, and the path that
a decorator names. -/
def ReadWhole (above : List SyntaxTree) (t : SyntaxTree) : Prop :=
  t.isOneOf ["identifier", "property_identifier", "string", "string_fragment"] = true ∨
    ∃ p outer, above = p :: outer ∧
      ((p.isOneOf memberTypes = true ∧ (t.field = "name" ∨ t.field = "property")) ∨
        (p.isOneOf functionTypes = true ∧ t.field = "name") ∨
        (p.type = "import_specifier" ∧ (t.field = "name" ∨ t.field = "alias")) ∨
        (p.type = "import_statement" ∧ t.field = "source") ∨
        (t.type = "template_string" ∧ ∃ call decorator outer', outer = call :: decorator :: outer' ∧
          decorator.type = "decorator"))

/-- Whether comments of scripts are inserted only where they are harmless: not within a text that is
read as a whole, not in front of a first argument that is read, and not behind a decorator, unless
in an export statement. -/
structure Harmless (k : Commenting) : Prop where
  types : k.types = ["comment"]
  texts : ∀ above elders, k.places above elders → ¬Within ReadWhole above
  arguments : ∀ above elders, k.places above elders → ¬HidesArgument above elders
  decorators : ∀ above elders, k.places above elders →
    ¬FollowsDecorator elders ∨ InExport above

variable {k : Commenting} {f f' : SourceFile} {above elders cs cs' : List SyntaxTree}
  {t t' : SyntaxTree}

section

variable (hk : Harmless k)
include hk

theorem passedOver {types : List String} (h : "comment" ∉ types) :
    k.PassedOver above (·.isOneOf types) :=
  k.passedOver_types above fun type htype => by
    rw [hk.types, List.mem_singleton] at htype
    exact htype ▸ h

theorem passedOver_one {type : String} (h : type ≠ "comment") :
    k.PassedOver above (·.type == type) :=
  k.passedOver_type above (by rw [hk.types, List.mem_singleton]; exact h)

theorem type_comment {d : SyntaxTree} (hd : k.IsComment d) : d.type = "comment" := by
  have htype := hd.type
  rwa [hk.types, List.mem_singleton] at htype

theorem not_within_text (hread : ReadWhole above t) (inner elders : List SyntaxTree) :
    ¬k.places (inner ++ t :: above) elders :=
  fun hplace => hk.texts _ _ hplace (.here hread inner)

theorem text_eq (h : Commented k f f' above t t') (hread : ReadWhole above t) :
    f'.text t' = f.text t :=
  h.text_eq (not_within_text hk hread)

/-! ## Strings and imports -/

theorem stringValue_eq (h : Commented k f f' above t t') (hread : ReadWhole above t) :
    stringValue f' t' = stringValue f t := by
  have hfind := h.forest.find? (passedOver_one hk (show "string_fragment" ≠ "comment" by decide))
  have hmem : ∀ c ∈ t.children.find? (·.type == "string_fragment"), c.type = "string_fragment" :=
    fun c hc => by
      have htype := List.find?_some hc
      exact beq_iff_eq.1 htype
  unfold stringValue
  generalize t.children.find? (·.type == "string_fragment") = c at hfind hmem ⊢
  generalize t'.children.find? (·.type == "string_fragment") = c' at hfind ⊢
  cases hfind with
  | none => exact congrArg unquoted (text_eq hk h hread)
  | some hc =>
    exact text_eq hk hc (.inl ((SyntaxTree.isOneOf_of_type (hmem _ rfl) _).trans (by decide)))

theorem fieldText_eq (h : Commented k f f' above t t') {field : String} (hfield : field ≠ "")
    (hread : ∀ c, c.field = field → ReadWhole (t :: above) c) :
    f'.fieldText t' field = f.fieldText t field :=
  text?_eq (h.child? hfield) fun _ hc =>
    not_within_text hk (hread _ (SyntaxTree.field_of_child? hc))

theorem specifierImport_eq (h : Commented k f f' above t t') (htype : t.type = "import_specifier")
    (source : String) : specifierImport f' source t' = specifierImport f source t := by
  have hpart {field : String} (hfield : field = "name" ∨ field = "alias") :
      f'.fieldText t' field = f.fieldText t field := by
    refine fieldText_eq hk h (by rintro rfl; simp at hfield) fun c hc => ?_
    exact .inr ⟨t, above, rfl, .inr (.inr (.inl ⟨htype, hc ▸ hfield⟩))⟩
  unfold specifierImport
  rw [hpart (.inl rfl), hpart (.inr rfl)]

theorem identifier_text_eq (h : Commented k f f' above t t') (htype : t.type = "identifier") :
    f'.text t' = f.text t := by
  exact text_eq hk h (.inl ((SyntaxTree.isOneOf_of_type htype _).trans (by decide)))

theorem clauseImports_eq (h : Commented k f f' above t t') (source : String) :
    clauseImports f' source t' = clauseImports f source t := by
  unfold clauseImports
  rw [h.type_eq]
  split
  · next htype => rw [identifier_text_eq hk h htype]
  split
  · have hnames := h.forest.filter (passedOver_one hk (show "identifier" ≠ "comment" by decide))
    refine map_eq_of_forall₂ ((List.forall₂_and_left _ _).2 ⟨fun c hc => (List.mem_filter.1 hc).2,
      hnames⟩) fun c c' hc => ?_
    rw [identifier_text_eq hk hc.2 (beq_iff_eq.1 hc.1)]
  split
  · have hspecifiers :=
      h.filter_namedChildren (passedOver_one hk (show "import_specifier" ≠ "comment" by decide))
    refine map_eq_of_forall₂ ((List.forall₂_and_left _ _).2 ⟨fun c hc => (List.mem_filter.1 hc).2,
      hspecifiers⟩) fun c c' hc => ?_
    exact specifierImport_eq hk hc.2 (beq_iff_eq.1 hc.1) source
  · rfl

theorem clauseImports_comment (f : SourceFile) (source : String) {d : SyntaxTree}
    (hd : k.IsComment d) : clauseImports f source d = [] := by
  unfold clauseImports
  rw [type_comment hk hd]
  rfl

theorem importsOf_eq (h : Commented k f f' above t t') (htype : t.type = "import_statement") :
    importsOf f' t' = importsOf f t := by
  have hsource := h.child? (show "source" ≠ "" by decide)
  have hfield : ∀ c ∈ t.child? "source", c.field = "source" :=
    fun c hc => SyntaxTree.field_of_child? hc
  unfold importsOf
  generalize t.child? "source" = s at hsource hfield ⊢
  generalize t'.child? "source" = s' at hsource ⊢
  cases hsource with
  | none => rfl
  | @some s s' hs =>
    have hread : ReadWhole (t :: above) s :=
      .inr ⟨t, above, rfl, .inr (.inr (.inr (.inl ⟨htype, hfield s rfl⟩)))⟩
    dsimp only
    rw [stringValue_eq hk hs hread, List.flatMap_assoc, List.flatMap_assoc, List.flatMap_def,
      List.flatMap_def]
    have hclauses :=
      h.forest.filter (passedOver_one hk (show "import_clause" ≠ "comment" by decide))
    refine congrArg List.flatten (map_eq_of_forall₂ hclauses fun c c' hc => ?_)
    exact hc.forest.flatMap_eq (fun _ _ hpart => clauseImports_eq hk hpart _)
      fun d hd => clauseImports_comment hk f' _ hd

/-! ## First arguments -/

/-- The first argument of a call, if it is one that is read. -/
def readArgument? (call : SyntaxTree) : Option SyntaxTree :=
  ((call.child? "arguments").bind fun args => args.namedChildren.head?).filter isRead

omit hk in
theorem isRead_eq (h : Commented k f f' above t t') : isRead t' = isRead t := by
  unfold isRead
  rw [h.isOneOf_eq, h.isOneOf_eq]

theorem isRead_comment {d : SyntaxTree} (hd : k.IsComment d) : isRead d = false := by
  have htype := type_comment hk hd
  unfold isRead
  rw [SyntaxTree.isOneOf_of_type htype, SyntaxTree.isOneOf_of_type htype]
  decide

omit hk in
/-- The first named sibling is the one that was first, unless comments are in front of it. -/
theorem head?_named {above : List SyntaxTree} : ∀ {elders cs cs' : List SyntaxTree}, elders = [] →
    CommentedForest k f f' above elders cs cs' →
      Option.Rel (Commented k f f' above) (cs.filter (·.named)).head? (cs'.filter (·.named)).head? ∨
        (k.places above [] ∧ ∃ d ∈ (cs'.filter (·.named)).head?, k.IsComment d)
  | _, _, _, _, .nil => .inl .none
  | _, _, _, helders, .keep (c := c) h hrest => by
    rw [List.filter_cons, List.filter_cons, h.named_eq]
    split
    · exact .inl (.some h)
    · next hanonymous => exact head?_named (by rw [if_neg hanonymous, helders]) hrest
  | _, _, _, helders, .insert hd hplace _ => by
    rw [List.filter_cons, if_pos hd.named]
    exact .inr ⟨helders ▸ hplace, _, rfl, hd⟩

/-- Of a decorator's call and of a variable's value the first argument is the one that was. -/
theorem readArgument?_kept {call call' holder : SyntaxTree} {outer : List SyntaxTree}
    (hcall : call.type = "call_expression")
    (hholder : holder.isOneOf ["decorator", "variable_declarator"] = true)
    (h : Commented k f f' (holder :: outer) call call') :
    Option.Rel (fun a a' => ∃ args, Commented k f f' (args :: call :: holder :: outer) a a')
      (readArgument? call) (readArgument? call') := by
  have hargs := h.child? (show "arguments" ≠ "" by decide)
  have hfield : ∀ c ∈ call.child? "arguments", c.field = "arguments" :=
    fun c hc => SyntaxTree.field_of_child? hc
  unfold readArgument?
  generalize call.child? "arguments" = args at hargs hfield ⊢
  generalize call'.child? "arguments" = args' at hargs ⊢
  cases hargs with
  | none => exact .none
  | @some args args' hargs =>
    rw [Option.bind_some, Option.bind_some]
    rcases head?_named rfl hargs.forest with hhead | ⟨hplace, d, hd, hcomment⟩
    · unfold SyntaxTree.namedChildren
      generalize (args.children.filter (·.named)).head? = a at hhead ⊢
      generalize (args'.children.filter (·.named)).head? = a' at hhead ⊢
      cases hhead with
      | none => exact .none
      | @some a a' ha =>
        rw [Option.filter_some, Option.filter_some, isRead_eq ha]
        split
        · exact .some ⟨args, ha⟩
        · exact .none
    · have hnone : args.namedChildren.head?.filter isRead = none := by
        rw [Option.filter_eq_none_iff]
        exact fun first hfirst hread => hk.arguments _ _ hplace
          ⟨rfl, args, call, holder, outer, rfl, hfield args rfl, hcall, hholder, first, hfirst,
            hread⟩
      have hnone' : args'.namedChildren.head?.filter isRead = none := by
        unfold SyntaxTree.namedChildren
        rw [hd, Option.filter_some, isRead_comment hk hcomment]
        rfl
      rw [hnone, hnone']
      exact .none

/-! ## Decorators -/

/-- Whether a decorator is as it was: of the same name as far as names of decorators matter, and
with the same path. -/
structure DecoratorKept (f f' : SourceFile) (d d' : SyntaxTree) : Prop where
  name : SameWord (decoratorParts f d).1 (decoratorParts f' d').1
  path : (decoratorParts f' d').2 = (decoratorParts f d).2

omit hk in
theorem decoratorPath?_eq_bind (f : SourceFile) (call : SyntaxTree) : decoratorPath? f call =
    (readArgument? call).bind fun a =>
      if a.isOneOf ["string", "template_string"] then some (stringValue f a) else none := by
  unfold decoratorPath? readArgument?
  cases (call.child? "arguments").bind fun args => args.namedChildren.head? with
  | none => rfl
  | some a =>
    rw [Option.filter_some, Option.bind_some]
    unfold isRead
    by_cases hstring : a.isOneOf ["string", "template_string"] = true
    · simp [hstring]
    · rw [if_neg hstring]
      split
      · rw [Option.bind_some, if_neg hstring]
      · rfl

theorem decoratorPath?_eq {call call' decorator : SyntaxTree} {outer : List SyntaxTree}
    (hcall : call.type = "call_expression") (hdecorator : decorator.type = "decorator")
    (h : Commented k f f' (decorator :: outer) call call') :
    decoratorPath? f' call' = decoratorPath? f call := by
  have hholder : decorator.isOneOf ["decorator", "variable_declarator"] = true :=
    (SyntaxTree.isOneOf_of_type hdecorator _).trans (by decide)
  have hargument := readArgument?_kept hk hcall hholder h
  rw [decoratorPath?_eq_bind, decoratorPath?_eq_bind]
  generalize readArgument? call = a at hargument ⊢
  generalize readArgument? call' = a' at hargument ⊢
  cases hargument with
  | none => rw [Option.bind_none, Option.bind_none]
  | @some a a' ha =>
    obtain ⟨args, ha⟩ := ha
    rw [Option.bind_some, Option.bind_some, ha.isOneOf_eq]
    split
    · next hstring =>
      refine congrArg some (stringValue_eq hk ha ?_)
      rw [SyntaxTree.isOneOf, List.contains_iff_mem] at hstring
      simp only [List.mem_cons, List.not_mem_nil, or_false] at hstring
      rcases hstring with htype | htype
      · exact .inl ((SyntaxTree.isOneOf_of_type htype _).trans (by decide))
      · exact .inr ⟨args, _, rfl, .inr (.inr (.inr (.inr ⟨htype, call, decorator, outer, rfl,
          hdecorator⟩)))⟩
    · rfl

theorem decoratorKept (h : Commented k f f' above t t') (htype : t.type = "decorator") :
    DecoratorKept f f' t t' := by
  have hpart := h.find?_namedChildren (passedOver hk
    (show "comment" ∉ ["call_expression", "identifier", "member_expression"] by decide))
  have hparts : SameWord (decoratorParts f t).1 (decoratorParts f' t').1 ∧
      (decoratorParts f' t').2 = (decoratorParts f t).2 := by
    unfold decoratorParts
    generalize t.namedChildren.find? _ = c at hpart ⊢
    generalize t'.namedChildren.find? _ = c' at hpart ⊢
    cases hpart with
    | none => exact ⟨.refl "", rfl⟩
    | @some c c' hc =>
      dsimp only
      rw [hc.type_eq]
      split
      · next hcall =>
        exact ⟨hc.sameWord_fieldText (by decide), decoratorPath?_eq hk hcall htype hc⟩
      · dsimp only
        exact ⟨hc.sameWord, rfl⟩
  exact ⟨hparts.1, hparts.2⟩

end

/-! ## Decorators of classes -/

/-- The kind that a decorator of a class gives to a module whatever it was before. -/
def decoratorKind? (name : String) : Option Kind :=
  if name = "Controller" then some .controller
  else if name = "Component" ∨ name = "Directive" ∨ name = "Pipe" then some .utility
  else if name = "NgModule" then some .configuration
  else none

/-- The analysis after a decorator of a name. -/
def addDecorator (a : ModuleAnalysis) (name : String) : ModuleAnalysis :=
  { a with
    kind := (decoratorKind? name).getD
      (if a.kind = .other ∧ name = "Injectable" then .service else a.kind)
    isEntryPoint := a.isEntryPoint || name = "Controller" }

theorem applyClassDecorator_eq (f : SourceFile) (a : ModuleAnalysis) (d : SyntaxTree) :
    applyClassDecorator f a d = addDecorator a (decoratorParts f d).1 := by
  unfold applyClassDecorator addDecorator decoratorKind?
  generalize (decoratorParts f d).1 = name
  split
  case h_2 => by_cases hkind : a.kind = .other <;> simp [hkind]
  case h_7 => simp_all
  all_goals simp

theorem decoratorKind?_ne_other {name : String} {kind : Kind}
    (h : decoratorKind? name = some kind) :
    kind ≠ .other := by
  unfold decoratorKind? at h
  rintro rfl
  split at h
  · cases h
  · split at h
    · cases h
    · split at h <;> cases h

/-- Of the decorators of a class the last one that gives a kind decides. -/
theorem foldl_addDecorator (names : List String) (a : ModuleAnalysis) :
    names.foldl addDecorator a =
      { a with
        kind := (names.filterMap decoratorKind?).getLast?.getD
          (if a.kind = .other ∧ "Injectable" ∈ names then .service else a.kind)
        isEntryPoint := a.isEntryPoint || decide ("Controller" ∈ names) } := by
  induction names using List.reverseRecOn with
  | nil => simp
  | append_singleton names name ih =>
    have hentry :
        (a.isEntryPoint || decide ("Controller" ∈ names) || decide (name = "Controller")) =
          (a.isEntryPoint || decide ("Controller" ∈ names ++ [name])) := by
      simp [Bool.or_assoc, eq_comm]
    rw [List.foldl_concat, ih, addDecorator, List.filterMap_append, hentry]
    cases hkind : decoratorKind? name with
    | some kind => simp [hkind]
    | none =>
      have hlast : ∀ kind ∈ (names.filterMap decoratorKind?).getLast?, kind ≠ .other := by
        intro kind hkind
        obtain ⟨_, -, hgiven⟩ := List.mem_filterMap.1 (List.mem_of_getLast? hkind)
        exact decoratorKind?_ne_other hgiven
      simp only [List.filterMap_cons, hkind, List.filterMap_nil, List.append_nil, Option.getD_none]
      generalize (names.filterMap decoratorKind?).getLast? = last at hlast ⊢
      cases last with
      | some kind => simp [hlast kind rfl]
      | none =>
        by_cases hother : a.kind = .other <;> by_cases hmem : "Injectable" ∈ names <;>
          by_cases hname : name = "Injectable" <;> simp [hother, hmem, hname, eq_comm]

/-- Decorators that come again later change nothing. -/
theorem foldl_addDecorator_append {names later : List String} (h : ∀ n ∈ names, n ∈ later)
    (a : ModuleAnalysis) :
    (names ++ later).foldl addDecorator a = later.foldl addDecorator a := by
  have hmem (n : String) : n ∈ names ++ later ↔ n ∈ later := by
    rw [List.mem_append]
    exact or_iff_right_of_imp (h n)
  have hlast : ((names ++ later).filterMap decoratorKind?).getLast? =
      (later.filterMap decoratorKind?).getLast? := by
    rw [List.filterMap_append, List.getLast?_append]
    cases hlater : (later.filterMap decoratorKind?).getLast? with
    | some kind => rfl
    | none =>
      have hnone : names.filterMap decoratorKind? = [] := by
        rw [List.getLast?_eq_none_iff, List.filterMap_eq_nil_iff] at hlater
        exact List.filterMap_eq_nil_iff.2 fun n hn => hlater n (h n hn)
      rw [hnone]
      rfl
  rw [foldl_addDecorator, foldl_addDecorator, hlast]
  simp only [hmem]

/-- Names that are the same as far as words go make the same of a class. -/
theorem addDecorator_sameWord {name name' : String} (h : SameWord name name')
    (a : ModuleAnalysis) : addDecorator a name' = addDecorator a name := by
  unfold addDecorator decoratorKind?
  simp only [h.eq_iff (show IsWord "Controller" by decide),
    h.eq_iff (show IsWord "Component" by decide), h.eq_iff (show IsWord "Directive" by decide),
    h.eq_iff (show IsWord "Pipe" by decide), h.eq_iff (show IsWord "NgModule" by decide),
    h.eq_iff (show IsWord "Injectable" by decide)]

theorem foldl_applyClassDecorator (f : SourceFile) (ds : List SyntaxTree) (a : ModuleAnalysis) :
    ds.foldl (applyClassDecorator f) a =
      (ds.map fun d => (decoratorParts f d).1).foldl addDecorator a := by
  have hstep : applyClassDecorator f = fun a d => addDecorator a (decoratorParts f d).1 :=
    funext fun a => funext fun d => applyClassDecorator_eq f a d
  rw [hstep, List.foldl_map]

theorem decoratorVerb?_sameWord {name name' : String} (h : SameWord name name') :
    decoratorVerb? name' = decoratorVerb? name := by
  rcases h with rfl | ⟨hname, hname'⟩
  · rfl
  · have hnone {n : String} (hn : ¬IsWord n) : decoratorVerb? n = none := by
      unfold decoratorVerb?
      split
      case h_6 => rfl
      all_goals exact absurd (by decide) hn
    rw [hnone hname, hnone hname']

end TypeScript

end CodeAtlas
