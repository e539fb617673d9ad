import CodeAtlas.Proofs.Source.Comments.Decorators
import Mathlib.Data.List.TakeWhile

/-!
# Comments in script modules

Script modules are looked at node by node, each node in its place among its siblings. This file
proves that the walk through a module in which harmless comments have been inserted visits what it
visited, and finds what it found.
-/

namespace CodeAtlas

namespace TypeScript

variable {k : Commenting} {f f' : SourceFile} {above elders cs cs' : List SyntaxTree}
  {t t' : SyntaxTree}

/-! ## Places of visited nodes -/

/-- Whether a node is a decorator. -/
def isDecorator (t : SyntaxTree) : Bool := t.type == "decorator"

/-- Whether siblings in front of a node, nearest first, are those that were there, with comments
inserted among them. -/
inductive EldersKept (k : Commenting) (f f' : SourceFile) (above : List SyntaxTree) :
    List SyntaxTree → List SyntaxTree → Prop
  | nil : EldersKept k f f' above [] []
  | keep {c c' : SyntaxTree} {elders elders' : List SyntaxTree} (h : Commented k f f' above c c')
    (hrest : EldersKept k f f' above elders elders') :
    EldersKept k f f' above (c :: elders) (c' :: elders')
  | insert {d : SyntaxTree} {elders elders' : List SyntaxTree} (hd : k.IsComment d)
    (hplace : k.places above elders) (hrest : EldersKept k f f' above elders elders') :
    EldersKept k f f' above elders (d :: elders')

/-- Whether a visit is to the node to which another one is, in the same place. -/
inductive VisitKept (k : Commenting) (f f' : SourceFile) : NodeVisit → NodeVisit → Prop
  | root {t t' : SyntaxTree} (h : Commented k f f' [] t t') :
    VisitKept k f f' ⟨t, none, []⟩ ⟨t', none, []⟩
  | below {outer elders elders' : List SyntaxTree} {p p' c c' : SyntaxTree}
    (hp : Commented k f f' outer p p') (h : Commented k f f' (p :: outer) c c')
    (hmem : c ∈ p.children) (helders : EldersKept k f f' (p :: outer) elders elders')
    (hsiblings : ∀ e ∈ elders, e ∈ p.children) (hsiblings' : ∀ e ∈ elders', e ∈ p'.children) :
    VisitKept k f f' ⟨c, some p, elders⟩ ⟨c', some p', elders'⟩

/-- Whether visits are those of another list, with visits to comments among them. -/
inductive VisitsKept (k : Commenting) (f f' : SourceFile) : List NodeVisit → List NodeVisit → Prop
  | nil : VisitsKept k f f' [] []
  | keep {v v' : NodeVisit} {vs vs' : List NodeVisit} (h : VisitKept k f f' v v')
    (hrest : VisitsKept k f f' vs vs') : VisitsKept k f f' (v :: vs) (v' :: vs')
  | insert {v' : NodeVisit} {vs vs' : List NodeVisit} (hv' : k.IsComment v'.node)
    (hrest : VisitsKept k f f' vs vs') : VisitsKept k f f' vs (v' :: vs')

theorem VisitKept.exists_commented {v v' : NodeVisit} (h : VisitKept k f f' v v') :
    ∃ above, Commented k f f' above v.node v'.node := by
  cases h with
  | root h => exact ⟨_, h⟩
  | below _ h => exact ⟨_, h⟩

/-- The siblings in front of the one after a node: the node is among them if it is named. -/
theorem mem_elders {P : SyntaxTree → Prop} {c : SyntaxTree} {elders : List SyntaxTree} (hc : P c)
    (helders : ∀ e ∈ elders, P e) : ∀ e ∈ if c.named then c :: elders else elders, P e := by
  split
  · exact List.forall_mem_cons.2 ⟨hc, helders⟩
  · exact helders

/-- The visits below a node are those that were there, with comments among them. -/
theorem visitsKept_ofSiblings {outer : List SyntaxTree} {p p' : SyntaxTree}
    (hp : Commented k f f' outer p p') {vs vs' : List NodeVisit}
    (hrest : VisitsKept k f f' vs vs') :
    ∀ {above elders cs cs' : List SyntaxTree}, CommentedForest k f f' above elders cs cs' →
      above = p :: outer → (∀ c ∈ cs, c ∈ p.children) → (∀ c ∈ cs', c ∈ p'.children) →
      ∀ {elders' : List SyntaxTree}, EldersKept k f f' above elders elders' →
        (∀ e ∈ elders, e ∈ p.children) → (∀ e ∈ elders', e ∈ p'.children) →
        VisitsKept k f f' (NodeVisit.ofSiblings p elders cs ++ vs)
          (NodeVisit.ofSiblings p' elders' cs' ++ vs')
  | _, _, _, _, .nil => fun _ _ _ _ _ _ _ => hrest
  | above, elders, c :: _, c' :: _, .keep h hforest => by
    intro habove hcs hcs' elders' helders hsiblings hsiblings'
    obtain ⟨hc, hcs⟩ := List.forall_mem_cons.1 hcs
    obtain ⟨hc', hcs'⟩ := List.forall_mem_cons.1 hcs'
    have hnext : EldersKept k f f' above (if c.named then c :: elders else elders)
        (if c'.named then c' :: elders' else elders') := by
      rw [h.named_eq]
      split
      · exact .keep h helders
      · exact helders
    have hvisits := visitsKept_ofSiblings hp hrest hforest habove hcs hcs' hnext
      (mem_elders hc hsiblings) (mem_elders hc' hsiblings')
    subst habove
    exact .keep (.below hp h hc helders hsiblings hsiblings') hvisits
  | above, elders, _, _ :: _, .insert (d := d) hd hplace hforest => by
    intro habove hcs hcs' elders' helders hsiblings hsiblings'
    obtain ⟨hd', hcs'⟩ := List.forall_mem_cons.1 hcs'
    have hnext : EldersKept k f f' above elders (if d.named then d :: elders' else elders') := by
      rw [if_pos hd.named]
      exact .insert hd hplace helders
    exact .insert hd (visitsKept_ofSiblings hp hrest hforest habove hcs hcs' hnext hsiblings
      (mem_elders hd' hsiblings'))

theorem VisitKept.below_kept {v v' : NodeVisit} (h : VisitKept k f f' v v')
    {vs vs' : List NodeVisit} (hrest : VisitsKept k f f' vs vs') :
    VisitsKept k f f' (v.below ++ vs) (v'.below ++ vs') := by
  obtain ⟨above, hnode⟩ := h.exists_commented
  exact visitsKept_ofSiblings hnode hrest hnode.forest rfl (fun _ hc => hc) (fun _ hc => hc) .nil
    nofun nofun

section

variable (hk : Harmless k)
include hk

/-- Unless in an export statement, the decorators right in front of a node are those that were. -/
theorem EldersKept.takeWhile {elders elders' : List SyntaxTree} (hexport : ¬InExport above)
    (h : EldersKept k f f' above elders elders') :
    List.Forall₂ (Commented k f f' above) (elders.takeWhile isDecorator)
      (elders'.takeWhile isDecorator) := by
  induction h with
  | nil => exact .nil
  | @keep c c' elders elders' h hrest ih =>
    have hsame : isDecorator c' = isDecorator c := by
      unfold isDecorator
      rw [h.type_eq]
    rw [List.takeWhile_cons, List.takeWhile_cons, hsame]
    split
    · exact .cons h ih
    · exact .nil
  | @insert d elders elders' hd hplace hrest ih =>
    have hcomment : isDecorator d = false := by
      unfold isDecorator
      rw [type_comment hk hd]
      rfl
    have hnone : elders.takeWhile isDecorator = [] := by
      cases elders with
      | nil => rfl
      | cons e elders =>
        refine List.takeWhile_cons_of_neg fun hdecorator => ?_
        exact (hk.decorators _ _ hplace).elim
          (fun hfollows => hfollows ⟨e, rfl, beq_iff_eq.1 hdecorator⟩) hexport
    rw [hnone, List.takeWhile_cons_of_neg (by rw [hcomment]; exact Bool.false_ne_true)]
    exact .nil

/-- Among siblings the decorators are those that were. -/
theorem decoratorsKept {elders cs cs' : List SyntaxTree}
    (h : CommentedForest k f f' above elders cs cs') :
    List.Forall₂ (DecoratorKept f f') (cs.filter isDecorator) (cs'.filter isDecorator) := by
  have hfilter := h.filter (passedOver_one hk (show "decorator" ≠ "comment" by decide))
  refine ((List.forall₂_and_left _ _).2 ⟨fun c hc => (List.mem_filter.1 hc).2, hfilter⟩).imp
    fun c c' hc => decoratorKept hk hc.2 (beq_iff_eq.1 hc.1)

omit hk in
/-- The decorators of the export statement around a node. -/
def decoratorsAround (p : SyntaxTree) : List SyntaxTree :=
  if p.type = "export_statement" then p.children.filter isDecorator else []

omit hk in
theorem decorators_root (t : SyntaxTree) :
    NodeVisit.decorators ⟨t, none, []⟩ = t.children.filter isDecorator :=
  List.append_nil _

omit hk in
theorem decorators_below (c p : SyntaxTree) (elders : List SyntaxTree) :
    NodeVisit.decorators ⟨c, some p, elders⟩ =
      (elders.takeWhile isDecorator).reverse ++
        (c.children.filter isDecorator ++ decoratorsAround p) :=
  List.append_assoc _ _ _

theorem decoratorsAround_kept {outer : List SyntaxTree} {p p' : SyntaxTree}
    (hp : Commented k f f' outer p p') :
    List.Forall₂ (DecoratorKept f f') (decoratorsAround p) (decoratorsAround p') := by
  unfold decoratorsAround
  rw [hp.type_eq]
  split
  · exact decoratorsKept hk hp.forest
  · exact .nil

theorem decorators_kept {outer elders elders' : List SyntaxTree} {p p' c c' : SyntaxTree}
    (hp : Commented k f f' outer p p') (h : Commented k f f' (p :: outer) c c')
    (helders : EldersKept k f f' (p :: outer) elders elders') (hexport : ¬InExport (p :: outer)) :
    List.Forall₂ (DecoratorKept f f') (NodeVisit.decorators ⟨c, some p, elders⟩)
      (NodeVisit.decorators ⟨c', some p', elders'⟩) := by
  have hfront : List.Forall₂ (DecoratorKept f f') (elders.takeWhile isDecorator)
      (elders'.takeWhile isDecorator) :=
    ((List.forall₂_and_left _ _).2 ⟨fun e he => List.mem_takeWhile_imp he,
      helders.takeWhile hk hexport⟩).imp fun e e' he => decoratorKept hk he.2 (beq_iff_eq.1 he.1)
  rw [decorators_below, decorators_below]
  exact List.rel_append (List.rel_reverse hfront)
    (List.rel_append (decoratorsKept hk h.forest) (decoratorsAround_kept hk hp))

omit hk in
theorem foldl_decorators_eq {ds ds' : List SyntaxTree}
    (h : List.Forall₂ (DecoratorKept f f') ds ds') (a : ModuleAnalysis) :
    ds'.foldl (applyClassDecorator f') a = ds.foldl (applyClassDecorator f) a := by
  induction h generalizing a with
  | nil => rw [List.foldl_nil, List.foldl_nil]
  | cons hd _ ih =>
    rw [List.foldl_cons, List.foldl_cons, applyClassDecorator_eq, applyClassDecorator_eq,
      addDecorator_sameWord hd.name, ih]

omit hk in
/-- In an export statement the decorators in front of a class come again among those around it. -/
theorem foldl_decorators_export {p : SyntaxTree} (hp : p.type = "export_statement")
    (c : SyntaxTree) {elders : List SyntaxTree} (hsiblings : ∀ e ∈ elders, e ∈ p.children)
    (a : ModuleAnalysis) :
    (NodeVisit.decorators ⟨c, some p, elders⟩).foldl (applyClassDecorator f) a =
      (c.children.filter isDecorator ++ decoratorsAround p).foldl (applyClassDecorator f) a := by
  rw [decorators_below, foldl_applyClassDecorator, foldl_applyClassDecorator, List.map_append]
  refine foldl_addDecorator_append (fun n hn => ?_) a
  obtain ⟨e, he, rfl⟩ := List.mem_map.1 hn
  rw [List.mem_reverse] at he
  refine List.mem_map_of_mem (List.mem_append_right _ ?_)
  unfold decoratorsAround
  rw [if_pos hp]
  exact List.mem_filter.2 ⟨hsiblings e ((List.takeWhile_sublist _).subset he),
    List.mem_takeWhile_imp he⟩

/-- The decorators of a class make the same of a module as they did. -/
theorem foldl_decorators_kept {v v' : NodeVisit} (h : VisitKept k f f' v v') (a : ModuleAnalysis) :
    v'.decorators.foldl (applyClassDecorator f') a =
      v.decorators.foldl (applyClassDecorator f) a := by
  cases h with
  | @root t t' h =>
    rw [decorators_root, decorators_root]
    exact foldl_decorators_eq (decoratorsKept hk h.forest) a
  | @below outer elders elders' p p' c c' hp h hmem helders hsiblings hsiblings' =>
    by_cases hexport : InExport (p :: outer)
    · obtain ⟨_, _, hcons, htype, -⟩ := hexport
      obtain ⟨rfl, rfl⟩ := List.cons.inj hcons
      rw [foldl_decorators_export (hp.type_eq.trans htype) c' hsiblings',
        foldl_decorators_export htype c hsiblings]
      exact foldl_decorators_eq
        (List.rel_append (decoratorsKept hk h.forest) (decoratorsAround_kept hk hp)) a
    · exact foldl_decorators_eq (decorators_kept hk hp h helders hexport) a

/-- The first decorator of a member that stands for a verb is the one that was. -/
theorem memberRoute?_kept {v v' : NodeVisit} (h : VisitKept k f f' v v')
    (hmember : v.node.isOneOf memberTypes = true) : memberRoute? f' v' = memberRoute? f v := by
  have hroute {ds ds' : List SyntaxTree} (hds : List.Forall₂ (DecoratorKept f f') ds ds') :
      (ds'.findSome? fun d => (decoratorVerb? (decoratorParts f' d).1).map fun verb =>
        (verb, (decoratorParts f' d).2)) =
      ds.findSome? fun d => (decoratorVerb? (decoratorParts f d).1).map fun verb =>
        (verb, (decoratorParts f d).2) :=
    findSome?_eq_of_forall₂ hds fun d d' hd => by
      rw [decoratorVerb?_sameWord hd.name, hd.path]
  cases h with
  | @root t t' h =>
    unfold memberRoute?
    rw [decorators_root, decorators_root]
    exact hroute (decoratorsKept hk h.forest)
  | @below outer elders elders' p p' c c' hp h hmem helders _ _ =>
    refine hroute (decorators_kept hk hp h helders ?_)
    rintro ⟨_, _, hcons, -, hnone⟩
    obtain ⟨rfl, rfl⟩ := List.cons.inj hcons
    exact Bool.false_ne_true ((hnone c hmem).symm.trans hmember)

end

/-! ## Findings -/

/-- What a method is found to answer: its name, and the verb and path of its requests. -/
def endpointOf (m : ModuleMethod) : String × Option String × Option String :=
  (m.name, m.httpMethod, m.httpPath)

/-- Whether the same is found in a module, but for the lines and the types of parameters. -/
structure SameFindings (a a' : ModuleAnalysis) : Prop where
  kind : a'.kind = a.kind
  isEntryPoint : a'.isEntryPoint = a.isEntryPoint
  imports : a'.imports = a.imports
  methods : a'.methods.map endpointOf = a.methods.map endpointOf

namespace SameFindings

variable {a a' : ModuleAnalysis}

theorem refl (a : ModuleAnalysis) : SameFindings a a := ⟨rfl, rfl, rfl, rfl⟩

theorem addMethod (h : SameFindings a a') {m m' : ModuleMethod}
    (hm : endpointOf m' = endpointOf m) :
    SameFindings (addMethod a m) (addMethod a' m') := by
  refine ⟨h.kind, h.isEntryPoint, h.imports, ?_⟩
  unfold TypeScript.addMethod
  dsimp only
  rw [List.map_append, List.map_append, h.methods, List.map_singleton, List.map_singleton, hm]

theorem addMethod? (h : SameFindings a a') {m m' : Option ModuleMethod}
    (hm : m'.map endpointOf = m.map endpointOf) :
    SameFindings (m.elim a (TypeScript.addMethod a)) (m'.elim a' (TypeScript.addMethod a')) := by
  cases m with
  | none =>
    rw [Option.map_none, Option.map_eq_none_iff] at hm
    rw [hm]
    exact h
  | some m =>
    obtain ⟨m', rfl, hendpoint⟩ := Option.map_eq_some_iff.1 hm
    exact h.addMethod hendpoint

theorem addImports (h : SameFindings a a') (imports : List ModuleImport) :
    SameFindings { a with imports := a.imports ++ imports }
      { a' with imports := a'.imports ++ imports } :=
  ⟨h.kind, h.isEntryPoint, by rw [h.imports], h.methods⟩

theorem foldl_addDecorator (h : SameFindings a a') (names : List String) :
    SameFindings (names.foldl addDecorator a) (names.foldl addDecorator a') := by
  induction names generalizing a a' with
  | nil => exact h
  | cons name names ih =>
    refine ih ⟨?_, ?_, h.imports, h.methods⟩
    · unfold addDecorator
      rw [h.kind]
    · unfold addDecorator
      rw [h.isEntryPoint]

end SameFindings

theorem endpointOf_functionMethod (s : Setting) (name : String) (f f' : SourceFile)
    (anchor anchor' function function' : SyntaxTree) :
    endpointOf (functionMethod f' s name anchor' function') =
      endpointOf (functionMethod f s name anchor function) := by
  unfold functionMethod endpointOf
  split <;> simp only

/-- The name of a member of a class. -/
def memberName (f : SourceFile) (t : SyntaxTree) : String :=
  match t.child? "name" with
  | some n => f.text n
  | none => f.fieldText t "property"

theorem map_endpointOf_memberMethod? (f : SourceFile) (v : NodeVisit) :
    (memberMethod? f v).map endpointOf =
      if (memberFunction? v.node).isSome = true ∧ memberName f v.node ≠ "" then
        some (memberName f v.node, (memberRoute? f v).map (·.1), (memberRoute? f v).bind (·.2))
      else none := by
  unfold memberMethod?
  cases memberFunction? v.node with
  | none => rfl
  | some function =>
    change Option.map endpointOf (if memberName f v.node = "" then none else
      some ⟨memberName f v.node, some (f.line v.node), (memberRoute? f v).map (·.1),
        (memberRoute? f v).bind (·.2), parameterTypes f function⟩) = _
    by_cases hname : memberName f v.node = ""
    · simp [hname]
    · simp [hname, endpointOf]

/-- What the first argument of a variable's value brings. -/
def addFirst (f : SourceFile) (s : Setting) (a : ModuleAnalysis) (t value : SyntaxTree)
    (name : String) (first : SyntaxTree) : ModuleAnalysis :=
  if f.fieldText value "function" = "require" && first.type = "string" then
    { a with imports := a.imports ++ [⟨"default", name, stringValue f first⟩] }
  else if first.isOneOf functionValues then addMethod a (functionMethod f s name t first)
  else a

/-- A variable whose value is a call brings what the first argument brings, if that is read. -/
theorem addVariable_call {f : SourceFile} (s : Setting) (a : ModuleAnalysis) {n value : SyntaxTree}
    (hname : t.child? "name" = some n) (hidentifier : n.type = "identifier")
    (hvalue : t.child? "value" = some value) (hcall : value.type = "call_expression") :
    addVariable f s a t =
      ((readArgument? value).map (addFirst f s a t value (f.text n))).getD a := by
  have hfunction : value.isOneOf functionValues = false := SyntaxTree.isOneOf_of_type hcall _
  unfold addVariable readArgument?
  rw [hname, hvalue]
  dsimp only
  rw [if_neg (not_not_intro hidentifier), hfunction, if_neg Bool.false_ne_true,
    if_neg (not_not_intro hcall)]
  cases (value.child? "arguments").bind fun args => args.namedChildren.head? with
  | none => rfl
  | some first =>
    rw [Option.filter_some]
    by_cases hread : isRead first = true
    · rw [if_pos hread]
      rfl
    · rw [if_neg hread]
      unfold isRead at hread
      rw [Bool.or_eq_true, not_or] at hread
      have hstring : first.type ≠ "string" := by
        intro htype
        exact hread.1 (SyntaxTree.isOneOf_of_type htype _)
      simp [hstring, hread.2]

section

variable (hk : Harmless k)
include hk

theorem memberName_eq (h : Commented k f f' above t t') (hmember : t.isOneOf memberTypes = true) :
    memberName f' t' = memberName f t := by
  have hread {c : SyntaxTree} (hfield : c.field = "name" ∨ c.field = "property") :
      ReadWhole (t :: above) c := .inr ⟨t, above, rfl, .inl ⟨hmember, hfield⟩⟩
  have hproperty := fieldText_eq hk h (show "property" ≠ "" by decide) fun c hc => hread (.inr hc)
  have hname := h.child? (show "name" ≠ "" by decide)
  have hfield : ∀ c ∈ t.child? "name", c.field = "name" :=
    fun c hc => SyntaxTree.field_of_child? hc
  unfold memberName
  generalize t.child? "name" = n at hname hfield ⊢
  generalize t'.child? "name" = n' at hname ⊢
  cases hname with
  | none => exact hproperty
  | some hn => exact text_eq hk hn (hread (.inl (hfield _ rfl)))

omit hk in
theorem isSome_memberFunction? (h : Commented k f f' above t t') :
    (memberFunction? t').isSome = (memberFunction? t).isSome := by
  have hvalue := h.child? (show "value" ≠ "" by decide)
  unfold memberFunction?
  rw [h.type_eq]
  split
  · rfl
  · generalize t.child? "value" = v at hvalue ⊢
    generalize t'.child? "value" = v' at hvalue ⊢
    cases hvalue with
    | none => rfl
    | some hv =>
      rw [Option.filter_some, Option.filter_some, hv.isOneOf_eq]
      split <;> rfl

theorem memberMethod?_kept {v v' : NodeVisit} (h : VisitKept k f f' v v')
    (hmember : v.node.isOneOf memberTypes = true) :
    (memberMethod? f' v').map endpointOf = (memberMethod? f v).map endpointOf := by
  obtain ⟨above, hnode⟩ := h.exists_commented
  rw [map_endpointOf_memberMethod?, map_endpointOf_memberMethod?, isSome_memberFunction? hnode,
    memberName_eq hk hnode hmember, memberRoute?_kept hk h hmember]

theorem propertyMethod?_kept (h : Commented k f f' above t t') :
    (propertyMethod? f' t').map endpointOf = (propertyMethod? f t).map endpointOf := by
  have hkey := h.child? (show "key" ≠ "" by decide)
  have hvalue := h.child? (show "value" ≠ "" by decide)
  unfold propertyMethod?
  generalize t.child? "key" = key at hkey ⊢
  generalize t'.child? "key" = key' at hkey ⊢
  generalize t.child? "value" = value at hvalue ⊢
  generalize t'.child? "value" = value' at hvalue ⊢
  cases hkey with
  | none => rfl
  | @some key key' hkey =>
    cases hvalue with
    | none => rfl
    | @some value value' hvalue =>
      dsimp only
      rw [hkey.type_eq, hvalue.isOneOf_eq]
      split
      · next hproperty =>
        rw [Bool.and_eq_true, decide_eq_true_iff] at hproperty
        have htext : f'.text key' = f.text key := text_eq hk hkey
          (.inl ((SyntaxTree.isOneOf_of_type hproperty.1 _).trans (by decide)))
        simp [endpointOf, htext]
      · rfl

theorem addFirst_kept (s : Setting) {a a' : ModuleAnalysis} (ha : SameFindings a a')
    {value value' first first' args : SyntaxTree} {outer : List SyntaxTree} (name : String)
    (hvalue : Commented k f f' (t :: outer) value value')
    (hfirst : Commented k f f' (args :: value :: t :: outer) first first') :
    SameFindings (addFirst f s a t value name first) (addFirst f' s a' t' value' name first') := by
  have hrequire : f'.fieldText value' "function" = "require" ↔
      f.fieldText value "function" = "require" :=
    (hvalue.sameWord_fieldText (by decide)).eq_iff (by decide)
  unfold addFirst
  simp only [hrequire, hfirst.type_eq, hfirst.isOneOf_eq]
  split
  · next hstring =>
    rw [Bool.and_eq_true, decide_eq_true_iff, decide_eq_true_iff] at hstring
    have hread : ReadWhole (args :: value :: t :: outer) first :=
      .inl ((SyntaxTree.isOneOf_of_type hstring.2 _).trans (by decide))
    rw [stringValue_eq hk hfirst hread]
    exact ha.addImports _
  split
  · exact ha.addMethod (endpointOf_functionMethod s name f f' _ _ _ _)
  · exact ha

/-- A declarator whose value is a call gives the same findings. -/
theorem addVariable_call_kept (s : Setting) {a a' : ModuleAnalysis} (ha : SameFindings a a')
    (h : Commented k f f' above t t') (htype : t.type = "variable_declarator")
    {n value : SyntaxTree} (hn : t.child? "name" = some n) (hidentifier : n.type = "identifier")
    (hv : t.child? "value" = some value) (hcall : value.type = "call_expression") :
    SameFindings (addVariable f s a t) (addVariable f' s a' t') := by
  have hname := h.child? (show "name" ≠ "" by decide)
  have hvalue := h.child? (show "value" ≠ "" by decide)
  rw [hn] at hname
  rw [hv] at hvalue
  obtain ⟨n', hn', hname⟩ := exists_of_rel hname
  obtain ⟨value', hv', hvalue⟩ := exists_of_rel hvalue
  have hholder : t.isOneOf ["decorator", "variable_declarator"] = true :=
    (SyntaxTree.isOneOf_of_type htype _).trans (by decide)
  have hargument := readArgument?_kept hk hcall hholder hvalue
  rw [addVariable_call s a hn hidentifier hv hcall, addVariable_call s a' hn'
    (hname.type_eq.trans hidentifier) hv' (hvalue.type_eq.trans hcall),
    identifier_text_eq hk hname hidentifier]
  generalize readArgument? value = first at hargument ⊢
  generalize readArgument? value' = first' at hargument ⊢
  cases hargument with
  | none => exact ha
  | some hfirst =>
    obtain ⟨args, hfirst⟩ := hfirst
    exact addFirst_kept hk s ha _ hvalue hfirst

theorem addVariable_kept (s : Setting) {a a' : ModuleAnalysis} (ha : SameFindings a a')
    (h : Commented k f f' above t t') (htype : t.type = "variable_declarator") :
    SameFindings (addVariable f s a t) (addVariable f' s a' t') := by
  have hname := h.child? (show "name" ≠ "" by decide)
  have hvalue := h.child? (show "value" ≠ "" by decide)
  by_cases hcall : ∃ n ∈ t.child? "name", n.type = "identifier" ∧
      ∃ value ∈ t.child? "value", value.type = "call_expression"
  · obtain ⟨n, hn, hidentifier, value, hv, hcall⟩ := hcall
    exact addVariable_call_kept hk s ha h htype hn hidentifier hv hcall
  unfold addVariable
  generalize t.child? "name" = n at hname hcall ⊢
  generalize t'.child? "name" = n' at hname ⊢
  generalize t.child? "value" = value at hvalue hcall ⊢
  generalize t'.child? "value" = value' at hvalue ⊢
  cases hname with
  | none => exact ha
  | @some n n' hname =>
    cases hvalue with
    | none => exact ha
    | @some value value' hvalue =>
      dsimp only
      rw [hname.type_eq, hvalue.isOneOf_eq, hvalue.type_eq]
      split
      · exact ha
      · next hidentifier =>
        rw [not_not] at hidentifier
        have hother : value.type ≠ "call_expression" :=
          fun hvalue => hcall ⟨n, rfl, hidentifier, value, rfl, hvalue⟩
        rw [identifier_text_eq hk hname hidentifier, if_pos hother, if_pos hother]
        split
        · exact ha.addMethod (endpointOf_functionMethod s _ f f' _ _ _ _)
        · exact ha

omit hk in
theorem contains_sameWord {name name' : String} (h : SameWord name name') {words : List String}
    (hwords : ∀ word ∈ words, IsWord word) : words.contains name' = words.contains name := by
  rw [Bool.eq_iff_iff, List.contains_iff_mem, List.contains_iff_mem]
  constructor
  · intro hmem
    exact ((h.eq_iff (hwords _ hmem)).1 rfl).symm ▸ hmem
  · intro hmem
    exact ((h.eq_iff (hwords _ hmem)).2 rfl).symm ▸ hmem

theorem registersRoute_eq (h : Commented k f f' above t t') :
    registersRoute f' t' = registersRoute f t := by
  have hfunction := h.child? (show "function" ≠ "" by decide)
  unfold registersRoute
  generalize t.child? "function" = function at hfunction ⊢
  generalize t'.child? "function" = function' at hfunction ⊢
  cases hfunction with
  | none => rfl
  | @some function function' hfunction =>
    have hmethod := contains_sameWord
      (hfunction.sameWord_fieldText (show "property" ≠ "" by decide))
      (show ∀ word ∈ routeMethods, IsWord word by decide)
    have hobject := hfunction.child? (show "object" ≠ "" by decide)
    dsimp only
    rw [hfunction.type_eq, hmethod]
    generalize function.child? "object" = receiver at hobject ⊢
    generalize function'.child? "object" = receiver' at hobject ⊢
    cases hobject with
    | none => rfl
    | @some receiver receiver' hreceiver =>
      dsimp only
      rw [hreceiver.type_eq]
      by_cases hidentifier : receiver.type = "identifier"
      · rw [identifier_text_eq hk hreceiver hidentifier]
      · rw [beq_eq_false_iff_ne.2 hidentifier]
        simp

/-- A visit adds to a module what it added. -/
theorem visit_kept (s : Setting) {a a' : ModuleAnalysis} (ha : SameFindings a a')
    {v v' : NodeVisit} (h : VisitKept k f f' v v') :
    SameFindings (visit f s a v) (visit f' s a' v') := by
  obtain ⟨above, hnode⟩ := h.exists_commented
  unfold visit
  dsimp only
  rw [hnode.type_eq, hnode.isOneOf_eq, hnode.isOneOf_eq, hnode.isOneOf_eq,
    registersRoute_eq hk hnode]
  split
  · next htype =>
    rw [importsOf_eq hk hnode htype]
    exact ha.addImports _
  split
  · rw [foldl_decorators_kept hk h, foldl_applyClassDecorator, foldl_applyClassDecorator]
    exact ha.foldl_addDecorator _
  split
  · next hmember => exact ha.addMethod? (memberMethod?_kept hk h hmember)
  split
  · next hfunction =>
    have hname := fieldText_eq hk hnode (show "name" ≠ "" by decide) fun c hc =>
      .inr ⟨v.node, above, rfl, .inr (.inl ⟨hfunction, hc⟩)⟩
    rw [hname]
    split
    · exact ha
    · exact ha.addMethod (endpointOf_functionMethod s _ f f' _ _ _ _)
  split
  · next htype => exact addVariable_kept hk s ha hnode htype
  split
  · exact ha.addMethod? (propertyMethod?_kept hk hnode)
  split
  · refine ⟨?_, rfl, ha.imports, ha.methods⟩
    dsimp only
    rw [ha.kind]
  · exact ha

theorem visit_comment (f : SourceFile) (s : Setting) (a : ModuleAnalysis) {v : NodeVisit}
    (hv : k.IsComment v.node) : visit f s a v = a := by
  have htype := type_comment hk hv
  unfold visit SyntaxTree.isOneOf
  dsimp only
  rw [htype]
  rfl

/-- A walk adds to a module what it added: each step visits a comment or the node that was
visited. -/
theorem foldl_walk_kept (s : Setting) {vs vs' : List NodeVisit} (h : VisitsKept k f f' vs vs')
    {a a' : ModuleAnalysis} (ha : SameFindings a a') :
    SameFindings ((NodeVisit.walk vs).foldl (visit f s) a)
      ((NodeVisit.walk vs').foldl (visit f' s) a') := by
  induction vs' using NodeVisit.walk.induct generalizing vs a a' with
  | case1 =>
    cases h
    rw [NodeVisit.walk]
    exact ha
  | case2 v' rest' hnamed ih =>
    rw [NodeVisit.walk.eq_def (v' :: rest')]
    dsimp only
    rw [if_pos hnamed, List.foldl_cons]
    cases h with
    | @keep v _ vs _ h hrest =>
      obtain ⟨above, hnode⟩ := h.exists_commented
      rw [NodeVisit.walk, if_pos (hnode.named_eq.symm.trans hnamed), List.foldl_cons]
      exact ih (h.below_kept hrest) (visit_kept hk s ha h)
    | insert hv' hrest =>
      have hbelow : v'.below = [] := by
        unfold NodeVisit.below
        rw [hv'.children]
        rfl
      rw [visit_comment hk f' s a' hv']
      rw [hbelow] at ih ⊢
      exact ih hrest ha
  | case3 v' rest' hanonymous ih =>
    rw [NodeVisit.walk.eq_def (v' :: rest')]
    dsimp only
    rw [if_neg hanonymous]
    cases h with
    | @keep v _ vs _ h hrest =>
      obtain ⟨above, hnode⟩ := h.exists_commented
      rw [NodeVisit.walk, if_neg (hnode.named_eq ▸ hanonymous)]
      exact ih hrest ha
    | insert hv' hrest => exact absurd hv'.named hanonymous

/-- A script module with comments is found to be what it was without. -/
theorem analyze_kept (h : Commented k f f' [] f.tree f'.tree) (path framework : String) :
    SameFindings (analyze f path framework) (analyze f' path framework) := by
  have hwalk := foldl_walk_kept hk (.ofFramework path framework)
    (.keep (.root h) .nil) (SameFindings.refl .empty)
  unfold analyze complete
  refine ⟨?_, ?_, hwalk.imports, hwalk.methods⟩
  · dsimp only
    rw [hwalk.kind]
  · have hany (a : ModuleAnalysis) : a.methods.any (fun m => m.httpMethod.isSome) =
        (a.methods.map endpointOf).any fun e => e.2.1.isSome := by
      rw [List.any_map]
      rfl
    dsimp only
    rw [hwalk.isEntryPoint, hany, hany, hwalk.methods]

end

end TypeScript

end CodeAtlas
