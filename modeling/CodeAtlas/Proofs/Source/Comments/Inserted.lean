import CodeAtlas.Source.File
import Mathlib.Data.List.Forall2

/-!
# Trees with comments inserted

Comments are nodes of the tree like others: named, and children of whatever stands around them. This
file says what it means that a source differs from another one in inserted comments only, and what
follows for the ways in which nodes are looked up: among the children that are no comments the same
ones are found, in the same order.
-/

namespace CodeAtlas

/-- Whether a text is a mere word, without brackets, blanks and slashes. -/
def IsWord (s : String) : Prop := ∀ c ∈ s.toList, c.isAlphanum = true

instance : DecidablePred IsWord := fun s =>
  decidable_of_iff (s.toList.all (·.isAlphanum) = true) List.all_eq_true

/-- How comments are inserted: the node types that they have, and the places where they are put. A
place is given by the nodes around it, the nearest first, and by the named siblings that were there
in front of it, the nearest first. -/
structure Commenting where
  types : List String
  places : List SyntaxTree → List SyntaxTree → Prop

/-- Whether a node is a comment as parsers insert it. -/
structure Commenting.IsComment (k : Commenting) (d : SyntaxTree) : Prop where
  type : d.type ∈ k.types
  named : d.named = true
  field : d.field = ""
  children : d.children = []

/-- Whether a node's text is as it was, if no comments are inserted below the node. If comments are,
the text neither was a word nor is it one: there are brackets or blanks around the places of
comments, and slashes in the comments. -/
structure KeepsText (f f' : SourceFile) (t t' : SyntaxTree) : Prop where
  same : t'.size = t.size → f'.text t' = f.text t
  noWord : t'.size ≠ t.size → ¬IsWord (f.text t) ∧ ¬IsWord (f'.text t')

section

variable (k : Commenting) (f f' : SourceFile)

mutual

/-- Whether a node is another one of which nothing is changed but that comments are inserted below
it. The nodes around it are given, the nearest first. -/
inductive Commented : List SyntaxTree → SyntaxTree → SyntaxTree → Prop
  | node {above : List SyntaxTree} {t t' : SyntaxTree} (htype : t'.type = t.type)
    (hnamed : t'.named = t.named) (hfield : t'.field = t.field) (htext : KeepsText f f' t t')
    (hchildren : CommentedForest (t :: above) [] t.children t'.children) : Commented above t t'

/-- Whether siblings are others between which and below which comments are inserted. The named
siblings in front of them are given. -/
inductive CommentedForest :
    List SyntaxTree → List SyntaxTree → List SyntaxTree → List SyntaxTree → Prop
  | nil {above elders : List SyntaxTree} : CommentedForest above elders [] []
  | keep {above elders cs cs' : List SyntaxTree} {c c' : SyntaxTree} (h : Commented above c c')
    (hrest : CommentedForest above (if c.named then c :: elders else elders) cs cs') :
    CommentedForest above elders (c :: cs) (c' :: cs')
  | insert {above elders cs cs' : List SyntaxTree} {d : SyntaxTree} (hd : k.IsComment d)
    (hplace : k.places above elders) (hrest : CommentedForest above elders cs cs') :
    CommentedForest above elders cs (d :: cs')

end

end

/-- Whether one of the nodes around a place is of a sort that depends on the nodes around it. -/
def Within (sort : List SyntaxTree → SyntaxTree → Prop) (above : List SyntaxTree) : Prop :=
  ∃ inner t outer, above = inner ++ t :: outer ∧ sort outer t

theorem Within.here {sort : List SyntaxTree → SyntaxTree → Prop} {above : List SyntaxTree}
    {t : SyntaxTree} (h : sort above t) (inner : List SyntaxTree) :
    Within sort (inner ++ t :: above) :=
  ⟨inner, t, above, rfl, h⟩

theorem within_cons {sort : List SyntaxTree → SyntaxTree → Prop} {above : List SyntaxTree}
    {t : SyntaxTree} : Within sort (t :: above) ↔ sort above t ∨ Within sort above := by
  constructor
  · rintro ⟨inner, u, outer, heq, hu⟩
    rcases List.cons_eq_append_iff.1 heq with ⟨rfl, hcons⟩ | ⟨inner, rfl, hrest⟩
    · obtain ⟨rfl, rfl⟩ := List.cons.inj hcons
      exact .inl hu
    · exact .inr ⟨inner, u, outer, hrest, hu⟩
  · rintro (ht | ⟨inner, u, outer, rfl, hu⟩)
    · exact .here ht []
    · exact .here hu (t :: inner)

theorem not_within_nil {sort : List SyntaxTree → SyntaxTree → Prop} : ¬Within sort [] := by
  rintro ⟨inner, u, outer, heq, -⟩
  exact List.append_ne_nil_of_right_ne_nil inner (List.cons_ne_nil u outer) heq.symm

variable {k : Commenting} {f f' : SourceFile} {above elders cs cs' : List SyntaxTree}
  {t t' : SyntaxTree}

mutual

/-- A tree in which all texts are as they were, with nothing inserted. -/
theorem Commented.refl : ∀ {above : List SyntaxTree} (t : SyntaxTree),
    (∀ n ∈ t.preorder, f'.text n = f.text n) → Commented k f f' above t t
  | _, .node _ _ _ _ _ cs, h => by
    obtain ⟨hown, hbelow⟩ := List.forall_mem_cons.1 h
    exact .node rfl rfl rfl ⟨fun _ => hown, fun hne => absurd rfl hne⟩
      (CommentedForest.refl cs hbelow)

theorem CommentedForest.refl : ∀ {above elders : List SyntaxTree} (cs : List SyntaxTree),
    (∀ n ∈ SyntaxTree.forestPreorder cs, f'.text n = f.text n) →
      CommentedForest k f f' above elders cs cs
  | _, _, [], _ => .nil
  | _, _, c :: cs, h => by
    obtain ⟨hfirst, hrest⟩ := List.forall_mem_append.1 h
    exact .keep (Commented.refl c hfirst) (CommentedForest.refl cs hrest)

end

namespace Commented

theorem type_eq (h : Commented k f f' above t t') : t'.type = t.type := by
  cases h; assumption

theorem named_eq (h : Commented k f f' above t t') : t'.named = t.named := by
  cases h; assumption

theorem field_eq (h : Commented k f f' above t t') : t'.field = t.field := by
  cases h; assumption

theorem isOneOf_eq (h : Commented k f f' above t t') (types : List String) :
    t'.isOneOf types = t.isOneOf types := by
  rw [SyntaxTree.isOneOf_of_type h.type_eq, SyntaxTree.isOneOf]

theorem keepsText (h : Commented k f f' above t t') : KeepsText f f' t t' := by
  cases h; assumption

theorem forest (h : Commented k f f' above t t') :
    CommentedForest k f f' (t :: above) [] t.children t'.children := by
  cases h; assumption

end Commented

/-! ## Lists that agree -/

section

variable {α β γ : Type} {R : α → β → Prop} {xs : List α} {ys : List β}

theorem rel_head? (h : List.Forall₂ R xs ys) : Option.Rel R xs.head? ys.head? := by
  cases h with
  | nil => exact .none
  | cons hhead _ => exact .some hhead

theorem rel_find? (h : List.Forall₂ R xs ys) {p : α → Bool} {q : β → Bool}
    (hp : ∀ x y, R x y → q y = p x) : Option.Rel R (xs.find? p) (ys.find? q) := by
  induction h with
  | nil => exact .none
  | @cons x y xs ys hxy _ ih =>
    rw [List.find?_cons, List.find?_cons, hp x y hxy]
    cases p x with
    | true => exact .some hxy
    | false => exact ih

theorem map_eq_of_forall₂ (h : List.Forall₂ R xs ys) {g : α → γ} {g' : β → γ}
    (hg : ∀ x y, R x y → g' y = g x) : ys.map g' = xs.map g := by
  induction h with
  | nil => rfl
  | cons hxy _ ih => rw [List.map_cons, List.map_cons, hg _ _ hxy, ih]

theorem any_eq_of_forall₂ (h : List.Forall₂ R xs ys) {p : α → Bool} {q : β → Bool}
    (hp : ∀ x y, R x y → q y = p x) : ys.any q = xs.any p := by
  induction h with
  | nil => rfl
  | cons hxy _ ih => rw [List.any_cons, List.any_cons, hp _ _ hxy, ih]

theorem map_eq_of_rel {o : Option α} {o' : Option β} (h : Option.Rel R o o') {g : α → γ}
    {g' : β → γ} (hg : ∀ x ∈ o, ∀ y, R x y → g' y = g x) : o'.map g' = o.map g := by
  cases h with
  | none => rfl
  | some hxy => exact congrArg some (hg _ rfl _ hxy)

theorem getD_map_of_rel {γ δ : Type} {S : γ → δ → Prop} {o : Option α} {o' : Option β}
    (h : Option.Rel R o o') {g : α → List γ} {g' : β → List δ}
    (hg : ∀ x y, R x y → List.Forall₂ S (g x) (g' y)) :
    List.Forall₂ S ((o.map g).getD []) ((o'.map g').getD []) := by
  cases h with
  | none => exact .nil
  | some hxy => exact hg _ _ hxy

theorem exists_of_rel {x : α} {o' : Option β} (h : Option.Rel R (some x) o') :
    ∃ y, o' = some y ∧ R x y := by
  cases h with
  | some hxy => exact ⟨_, rfl, hxy⟩

theorem findSome?_eq_of_forall₂ (h : List.Forall₂ R xs ys) {g : α → Option γ} {g' : β → Option γ}
    (hg : ∀ x y, R x y → g' y = g x) : ys.findSome? g' = xs.findSome? g := by
  induction h with
  | nil => rfl
  | cons hxy _ ih => rw [List.findSome?_cons, List.findSome?_cons, hg _ _ hxy, ih]

end

/-! ## Looking up children -/

/-- Whether the comments inserted among siblings are passed over by a look-up that goes by types,
names and fields. -/
structure Commenting.PassedOver (k : Commenting) (above : List SyntaxTree)
    (p : SyntaxTree → Bool) : Prop where
  same : ∀ t t', t'.type = t.type → t'.named = t.named → t'.field = t.field → p t' = p t
  comment : ∀ d elders, k.IsComment d → k.places above elders → p d = false

theorem CommentedForest.filter {p : SyntaxTree → Bool} (hp : k.PassedOver above p) :
    ∀ {elders cs cs' : List SyntaxTree}, CommentedForest k f f' above elders cs cs' →
      List.Forall₂ (Commented k f f' above) (cs.filter p) (cs'.filter p)
  | _, _, _, .nil => .nil
  | _, _, _, .keep h hrest => by
    have ih := CommentedForest.filter hp hrest
    rw [List.filter_cons, List.filter_cons, hp.same _ _ h.type_eq h.named_eq h.field_eq]
    split
    · exact .cons h ih
    · exact ih
  | _, _, _, .insert hd hplace hrest => by
    rw [List.filter_cons, hp.comment _ _ hd hplace]
    exact CommentedForest.filter hp hrest

theorem CommentedForest.find? {p : SyntaxTree → Bool} (hp : k.PassedOver above p)
    (h : CommentedForest k f f' above elders cs cs') :
    Option.Rel (Commented k f f' above) (cs.find? p) (cs'.find? p) := by
  rw [← List.head?_filter, ← List.head?_filter]
  exact rel_head? (h.filter hp)

theorem CommentedForest.any {p : SyntaxTree → Bool} (hp : k.PassedOver above p)
    (h : CommentedForest k f f' above elders cs cs') : cs'.any p = cs.any p := by
  have hfilter := any_eq_of_forall₂ (h.filter hp) fun _ _ h =>
    hp.same _ _ h.type_eq h.named_eq h.field_eq
  simpa only [List.any_filter, Bool.and_self] using hfilter

/-- What comments add nothing to is put together of what the other siblings add. -/
theorem CommentedForest.flatMap_eq {γ : Type} {g g' : SyntaxTree → List γ}
    (hg : ∀ c c', Commented k f f' above c c' → g' c' = g c)
    (hcomment : ∀ d, k.IsComment d → g' d = []) :
    ∀ {elders cs cs' : List SyntaxTree}, CommentedForest k f f' above elders cs cs' →
      cs'.flatMap g' = cs.flatMap g
  | _, _, _, .nil => rfl
  | _, _, _, .keep h hrest => by
    rw [List.flatMap_cons, List.flatMap_cons, hg _ _ h,
      CommentedForest.flatMap_eq hg hcomment hrest]
  | _, _, _, .insert hd _ hrest => by
    rw [List.flatMap_cons, hcomment _ hd, List.nil_append,
      CommentedForest.flatMap_eq hg hcomment hrest]

namespace Commenting

variable (k above)

theorem passedOver_field {field : String} (hfield : field ≠ "") :
    k.PassedOver above (·.field == field) where
  same t t' _ _ h := by rw [h]
  comment d _ hd _ := by
    rw [hd.field]
    exact beq_eq_false_iff_ne.2 hfield.symm

theorem passedOver_type {type : String} (h : type ∉ k.types) :
    k.PassedOver above (·.type == type) where
  same t t' htype _ _ := by rw [htype]
  comment d _ hd _ := beq_eq_false_iff_ne.2 fun heq => h (heq ▸ hd.type)

theorem passedOver_types {types : List String} (h : ∀ type ∈ k.types, type ∉ types) :
    k.PassedOver above (·.isOneOf types) where
  same t t' htype _ _ := by
    rw [SyntaxTree.isOneOf_of_type htype, SyntaxTree.isOneOf]
  comment d _ hd _ := by
    unfold SyntaxTree.isOneOf
    exact Bool.eq_false_iff.2 fun hmem => h d.type hd.type (List.contains_iff_mem.1 hmem)

variable {k above}

/-- Where no comments are inserted all look-ups pass them over. -/
theorem passedOver_of_none (h : ∀ elders, ¬k.places above elders) :
    k.PassedOver above (·.named) where
  same _ _ _ hnamed _ := hnamed
  comment _ elders _ hplace := absurd hplace (h elders)

/-- Among the named children comments are passed over as they are among all. -/
theorem PassedOver.named {p : SyntaxTree → Bool} (hp : k.PassedOver above p) :
    k.PassedOver above fun t => t.named && p t where
  same t t' htype hnamed hfield := by rw [hnamed, hp.same t t' htype hnamed hfield]
  comment d elders hd hplace := by rw [hp.comment d elders hd hplace, Bool.and_false]

end Commenting

theorem Commented.child? (h : Commented k f f' above t t') {field : String} (hfield : field ≠ "") :
    Option.Rel (Commented k f f' (t :: above)) (t.child? field) (t'.child? field) :=
  h.forest.find? (k.passedOver_field _ hfield)

theorem Commented.filter_namedChildren (h : Commented k f f' above t t') {p : SyntaxTree → Bool}
    (hp : k.PassedOver (t :: above) p) :
    List.Forall₂ (Commented k f f' (t :: above)) (t.namedChildren.filter p)
      (t'.namedChildren.filter p) := by
  unfold SyntaxTree.namedChildren
  simp only [List.filter_filter, Bool.and_comm (p _)]
  exact h.forest.filter hp.named

theorem Commented.find?_namedChildren (h : Commented k f f' above t t') {p : SyntaxTree → Bool}
    (hp : k.PassedOver (t :: above) p) :
    Option.Rel (Commented k f f' (t :: above)) (t.namedChildren.find? p)
      (t'.namedChildren.find? p) := by
  rw [← List.head?_filter, ← List.head?_filter]
  exact rel_head? (h.filter_namedChildren hp)

theorem SyntaxTree.field_of_child? {t c : SyntaxTree} {field : String}
    (h : t.child? field = some c) : c.field = field := by
  unfold child? at h
  have hfield := List.find?_some h
  exact beq_iff_eq.1 hfield

/-! ## Texts -/

mutual

theorem Commented.size_eq {above : List SyntaxTree} {t t' : SyntaxTree}
    (hnone : ∀ inner elders, ¬k.places (inner ++ t :: above) elders) :
    Commented k f f' above t t' → t'.size = t.size
  | .node _ _ _ _ hchildren => by
    have hsize := CommentedForest.size_eq hnone hchildren
    cases t
    cases t'
    simp only [SyntaxTree.size]
    exact congrArg (1 + ·) hsize
termination_by structural h => h

theorem CommentedForest.size_eq {above elders cs cs' : List SyntaxTree}
    (hnone : ∀ inner elders, ¬k.places (inner ++ above) elders) :
    CommentedForest k f f' above elders cs cs' →
      SyntaxTree.forestSize cs' = SyntaxTree.forestSize cs
  | .nil => rfl
  | .keep (c := c) h hrest => by
    have hbelow : ∀ inner elders, ¬k.places (inner ++ c :: above) elders := fun inner elders => by
      simpa using hnone (inner ++ [c]) elders
    simp only [SyntaxTree.forestSize]
    rw [Commented.size_eq hbelow h, CommentedForest.size_eq hnone hrest]
  | .insert _ hplace _ => absurd hplace (hnone [] _)
termination_by structural h => h

end

/-- A node within which no comments are put has the text that it had. -/
theorem Commented.text_eq (h : Commented k f f' above t t')
    (hnone : ∀ inner elders, ¬k.places (inner ++ t :: above) elders) : f'.text t' = f.text t :=
  h.keepsText.same (h.size_eq hnone)

theorem text?_eq {o o' : Option SyntaxTree} (h : Option.Rel (Commented k f f' above) o o')
    (hnone : ∀ c ∈ o, ∀ inner elders, ¬k.places (inner ++ c :: above) elders) :
    f'.text? o' = f.text? o := by
  unfold SourceFile.text?
  rw [map_eq_of_rel h fun c hc _ hcommented => hcommented.text_eq (hnone c hc)]

/-- Whether two texts are the same as far as words go. -/
def SameWord (s s' : String) : Prop := s' = s ∨ ¬IsWord s ∧ ¬IsWord s'

theorem SameWord.refl (s : String) : SameWord s s := .inl rfl

/-- Of what is the same as far as words go nothing else is a word. -/
theorem SameWord.eq_iff {s s' word : String} (h : SameWord s s') (hword : IsWord word) :
    s' = word ↔ s = word := by
  rcases h with rfl | ⟨hs, hs'⟩
  · rfl
  · constructor
    · rintro rfl
      exact absurd hword hs'
    · rintro rfl
      exact absurd hword hs

theorem Commented.sameWord (h : Commented k f f' above t t') :
    SameWord (f.text t) (f'.text t') := by
  by_cases hsize : t'.size = t.size
  · exact .inl (h.keepsText.same hsize)
  · exact .inr (h.keepsText.noWord hsize)

theorem Commented.sameWord_fieldText (h : Commented k f f' above t t') {field : String}
    (hfield : field ≠ "") : SameWord (f.fieldText t field) (f'.fieldText t' field) := by
  have hchild := h.child? hfield
  unfold SourceFile.fieldText SourceFile.text?
  generalize t.child? field = c at hchild ⊢
  generalize t'.child? field = c' at hchild ⊢
  cases hchild with
  | none => exact .refl ""
  | some hc => simpa only [Option.map_some, Option.getD_some] using hc.sameWord

end CodeAtlas
