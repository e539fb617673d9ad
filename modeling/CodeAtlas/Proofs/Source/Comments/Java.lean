import CodeAtlas.Proofs.Source.Comments.Inserted
import CodeAtlas.Source.Java

/-!
# Comments in Java files

Comments leave the annotations, names and imports of a Java file as they are. What is thrown is read
off all named nodes of a throws clause, and of an array the first named node is the value, so that a
comment in these places is taken for a type or for a path. This file proves that nothing else is
taken for anything.
-/

namespace CodeAtlas

namespace JavaFile

/-- The node types of comments. -/
def commentTypes : List String := ["line_comment", "block_comment"]

/-- The node types of annotations. -/
def annotationTypes : List String := ["marker_annotation", "annotation"]

/-- Whether a node is read as a name, by its text as a whole. -/
def ReadAsName (_above : List SyntaxTree) (t : SyntaxTree) : Prop :=
  t.field = "name" ∨ t.field = "key" ∨ t.isOneOf ["scoped_identifier", "identifier"] = true

/-- Whether a node is read as a value of an annotation, by its text as a whole: all values are that
are no arrays. -/
def ReadAsValue (above : List SyntaxTree) (t : SyntaxTree) : Prop :=
  t.type ≠ "element_value_array_initializer" ∧
    ((∃ p outer, above = p :: outer ∧
      p.isOneOf ["element_value_pair", "element_value_array_initializer"] = true) ∨
    ∃ p a outer, above = p :: a :: outer ∧ p.field = "arguments" ∧
      a.isOneOf annotationTypes = true ∧ t.type ≠ "element_value_pair")

/-- Whether a place is right in an array of an annotation. -/
def InArray (above : List SyntaxTree) : Prop :=
  ∃ p outer, above = p :: outer ∧ p.type = "element_value_array_initializer"

/-- Whether a place is in front of all elements of an array in an annotation. -/
def LeadsArray (above elders : List SyntaxTree) : Prop := elders = [] ∧ InArray above

/-- Whether annotations of a name make methods endpoints. -/
def IsMapping (name : String) : Prop := (mappingVerb? name).isSome = true ∨ name = "RequestMapping"

/-- Whether a node is an annotation that makes methods endpoints. -/
def MapsRequests (f : SourceFile) (a : SyntaxTree) : Prop :=
  a.isOneOf annotationTypes = true ∧ IsMapping (Text.afterLast (f.fieldText a "name") ".")

/-- Whether comments of Java are inserted, and none within a name. -/
structure KeepsNames (k : Commenting) : Prop where
  types : k.types = commentTypes
  names : ∀ above elders, k.places above elders → ¬Within ReadAsName above

/-- Whether no comments are inserted within throws clauses. -/
def KeepsThrows (k : Commenting) : Prop :=
  ∀ above elders, k.places above elders → ∀ t ∈ above, t.type ≠ "throws"

/-- Whether in annotations that make methods endpoints no comments are inserted within a value, nor
in front of all elements of an array. -/
def KeepsMappings (f : SourceFile) (k : Commenting) : Prop :=
  ∀ above elders, k.places above elders → (∃ a ∈ above, MapsRequests f a) →
    ¬Within ReadAsValue above ∧ ¬LeadsArray above elders

variable {k : Commenting} {f f' : SourceFile} {above elders cs cs' : List SyntaxTree}
  {t t' : SyntaxTree}

/-! ## Names -/

section

variable (hk : KeepsNames k)
include hk

theorem not_within_name (hread : ReadAsName above t) (inner elders : List SyntaxTree) :
    ¬k.places (inner ++ t :: above) elders :=
  fun hplace => hk.names _ _ hplace (.here hread inner)

theorem passedOver {types : List String} (h : ∀ type ∈ commentTypes, type ∉ types) :
    k.PassedOver above (·.isOneOf types) :=
  k.passedOver_types above fun type htype => h type (hk.types ▸ htype)

theorem passedOver_one {type : String} (h : type ∉ commentTypes) :
    k.PassedOver above (·.type == type) :=
  k.passedOver_type above (hk.types ▸ h)

theorem fieldText_eq (h : Commented k f f' above t t') {field : String}
    (hfield : field = "name" ∨ field = "key") : f'.fieldText t' field = f.fieldText t field := by
  have hne : field ≠ "" := by rintro rfl; simp at hfield
  refine text?_eq (h.child? hne) fun c hc => not_within_name hk ?_
  unfold ReadAsName
  rw [SyntaxTree.field_of_child? hc, ← or_assoc]
  exact .inl hfield

theorem declaredName_eq (h : Commented k f f' above t t') :
    declaredName f' t' = declaredName f t := by
  refine text?_eq (h.find?_namedChildren (passedOver hk (by decide))) fun c hc =>
    not_within_name hk ?_
  have htype := List.find?_some hc
  exact .inr (.inr htype)

theorem importOf_eq (h : Commented k f f' above t t') : importOf f' t' = importOf f t := by
  unfold importOf
  rw [declaredName_eq hk h, h.forest.any (passedOver_one hk (by decide)),
    h.forest.any (passedOver_one hk (by decide))]

end

/-! ## Values -/

theorem argumentValue_array (f : SourceFile) (h : t.type = "element_value_array_initializer") :
    argumentValue f t = argumentValue.firstNamedValue f t.children := by
  cases t
  exact if_pos h

theorem argumentValue_other (f : SourceFile) (h : t.type ≠ "element_value_array_initializer") :
    argumentValue f t = if t.type = "string_literal" then unquoted (f.text t) else f.text t := by
  cases t
  exact if_neg h

mutual

/-- In an annotation that makes methods endpoints a value is as it was. -/
theorem argumentValue_eq {above : List SyntaxTree} {t t' : SyntaxTree} (hvalues : KeepsMappings f k)
    (hmaps : ∃ a ∈ above, MapsRequests f a)
    (hread : t.type ≠ "element_value_array_initializer" → ReadAsValue above t) :
    Commented k f f' above t t' → argumentValue f' t' = argumentValue f t
  | .node htype hnamed hfield htext hchildren => by
    have hmapsBelow : ∃ a ∈ t :: above, MapsRequests f a := by
      obtain ⟨a, ha, hmaps⟩ := hmaps
      exact ⟨a, List.mem_cons_of_mem t ha, hmaps⟩
    by_cases harray : t.type = "element_value_array_initializer"
    · rw [argumentValue_array f harray, argumentValue_array f' (htype.trans harray)]
      exact firstNamedValue_eq hvalues hmapsBelow ⟨t, above, rfl, harray⟩ rfl hchildren
    · have hnone (inner elders : List SyntaxTree) : ¬k.places (inner ++ t :: above) elders := by
        intro hplace
        obtain ⟨a, ha, hmaps⟩ := hmapsBelow
        exact (hvalues _ _ hplace ⟨a, List.mem_append_right inner ha, hmaps⟩).1
          (.here (hread harray) inner)
      have htext := (Commented.node htype hnamed hfield htext hchildren).text_eq hnone
      rw [argumentValue_other f harray, argumentValue_other f' fun h => harray (htype.symm.trans h),
        htype, htext]
termination_by structural h => h

theorem firstNamedValue_eq {above elders cs cs' : List SyntaxTree} (hvalues : KeepsMappings f k)
    (hmaps : ∃ a ∈ above, MapsRequests f a) (harray : InArray above) (helders : elders = []) :
    CommentedForest k f f' above elders cs cs' →
      argumentValue.firstNamedValue f' cs' = argumentValue.firstNamedValue f cs
  | .nil => rfl
  | .keep (c := c) h hrest => by
    have hread (hother : c.type ≠ "element_value_array_initializer") : ReadAsValue above c := by
      obtain ⟨p, outer, rfl, hp⟩ := harray
      exact ⟨hother, .inl ⟨p, outer, rfl,
        (SyntaxTree.isOneOf_of_type hp _).trans (by decide)⟩⟩
    have hvalue := argumentValue_eq hvalues hmaps hread h
    have hlater (hanonymous : c.named = false) :=
      firstNamedValue_eq hvalues hmaps harray (by rw [hanonymous, helders]; rfl) hrest
    rw [argumentValue.firstNamedValue, argumentValue.firstNamedValue, h.named_eq]
    split
    · exact hvalue
    · next hanonymous => exact hlater (Bool.eq_false_iff.2 hanonymous)
  | .insert _ hplace _ => absurd ⟨helders, harray⟩ (hvalues _ _ hplace hmaps).2
termination_by structural h => h

end

/-- The values by their names with one more argument. -/
def addArgument (f : SourceFile) (values : Dict String String) (c : SyntaxTree) :
    Dict String String :=
  if c.type = "element_value_pair" then
    values.insert (f.fieldText c "key") (((c.child? "value").map (argumentValue f)).getD "")
  else if c.isOneOf commentTypes then values
  else values.insert "value" (argumentValue f c)

/-- Whether a place is right among the arguments of an annotation that makes methods endpoints. -/
def InMapping (f : SourceFile) (above : List SyntaxTree) : Prop :=
  ∃ p a outer, above = p :: a :: outer ∧ p.field = "arguments" ∧ MapsRequests f a

section

variable (hk : KeepsNames k)
include hk

theorem addArgument_comment (f : SourceFile) {d : SyntaxTree} (hd : k.IsComment d)
    (values : Dict String String) : addArgument f values d = values := by
  have htype : d.type ∈ commentTypes := hk.types ▸ hd.type
  have hpair : d.type ≠ "element_value_pair" := by
    intro heq
    rw [heq] at htype
    exact absurd htype (by decide)
  have hcomment : d.isOneOf commentTypes = true := List.contains_iff_mem.2 htype
  rw [addArgument, if_neg hpair, if_pos hcomment]

theorem addArgument_eq (hvalues : KeepsMappings f k) (hmapping : InMapping f above)
    (h : Commented k f f' above t t') (values : Dict String String) :
    addArgument f' values t' = addArgument f values t := by
  obtain ⟨p, a, outer, rfl, hp, hmaps⟩ := hmapping
  have hmapsAbove : ∃ m ∈ p :: a :: outer, MapsRequests f m := ⟨a, by simp, hmaps⟩
  unfold addArgument
  rw [h.type_eq, h.isOneOf_eq]
  split
  · next hpair =>
    have hmapsBelow : ∃ m ∈ t :: p :: a :: outer, MapsRequests f m := ⟨a, by simp, hmaps⟩
    have hpart : t.isOneOf ["element_value_pair", "element_value_array_initializer"] = true :=
      (SyntaxTree.isOneOf_of_type hpair _).trans (by decide)
    have hvalue := map_eq_of_rel (h.child? (show "value" ≠ "" by decide)) fun c _ c' hc =>
      argumentValue_eq hvalues hmapsBelow (fun hother => ⟨hother, .inl ⟨t, _, rfl, hpart⟩⟩) hc
    rw [fieldText_eq hk h (.inr rfl), hvalue]
  · split
    · rfl
    · next hpair _ =>
      rw [argumentValue_eq hvalues hmapsAbove (fun hother =>
        ⟨hother, .inr ⟨p, a, outer, rfl, hp, hmaps.1, hpair⟩⟩) h]

theorem foldl_addArgument_eq (hvalues : KeepsMappings f k) {above : List SyntaxTree}
    (hmapping : InMapping f above) :
    ∀ {elders cs cs' : List SyntaxTree} (values : Dict String String),
      CommentedForest k f f' above elders cs cs' →
      (cs'.filter (·.named)).foldl (addArgument f') values =
        (cs.filter (·.named)).foldl (addArgument f) values
  | _, _, _, _, .nil => by rw [List.filter_nil, List.foldl_nil, List.foldl_nil]
  | _, _, _, values, .keep h hrest => by
    rw [List.filter_cons, List.filter_cons, h.named_eq]
    split
    · rw [List.foldl_cons, List.foldl_cons, addArgument_eq hk hvalues hmapping h]
      exact foldl_addArgument_eq hvalues hmapping _ hrest
    · exact foldl_addArgument_eq hvalues hmapping values hrest
  | _, _, _, values, .insert hd _ hrest => by
    rw [List.filter_cons, if_pos hd.named, List.foldl_cons, addArgument_comment hk f' hd]
    exact foldl_addArgument_eq hvalues hmapping values hrest

theorem annotationArguments_eq (hvalues : KeepsMappings f k) (hmaps : MapsRequests f t)
    (h : Commented k f f' above t t') : annotationArguments f' t' = annotationArguments f t := by
  have hfold :
      ((t'.child? "arguments").map fun p => p.namedChildren.foldl (addArgument f') .empty) =
        (t.child? "arguments").map fun p => p.namedChildren.foldl (addArgument f) .empty :=
    map_eq_of_rel (h.child? (show "arguments" ≠ "" by decide)) fun p hp p' hcommented =>
      foldl_addArgument_eq hk hvalues
        ⟨p, t, above, rfl, SyntaxTree.field_of_child? hp, hmaps⟩ .empty hcommented.forest
  have hdef (f : SourceFile) (t : SyntaxTree) : annotationArguments f t =
      ((t.child? "arguments").map fun p => p.namedChildren.foldl (addArgument f) .empty).getD
        .empty := by
    unfold annotationArguments
    cases t.child? "arguments" <;> rfl
  rw [hdef, hdef, hfold]

end

/-! ## Annotations -/

/-- Whether an annotation is as it was: of the same name, and with the same arguments if it makes
methods endpoints and comments keep out of the values. -/
structure AnnotationKept (mapped : Prop) (a a' : JavaAnnotation) : Prop where
  name : a'.name = a.name
  arguments : mapped → IsMapping a.name → a'.arguments = a.arguments

/-- The annotation that a node is. -/
def annotationAt (f : SourceFile) (t : SyntaxTree) : JavaAnnotation :=
  ⟨Text.afterLast (f.fieldText t "name") ".", annotationArguments f t⟩

theorem annotationsOf_eq (f : SourceFile) (t : SyntaxTree) : annotationsOf f t =
    (t.children.filter (·.type == "modifiers")).flatMap fun m =>
      (m.namedChildren.filter (·.isOneOf annotationTypes)).map (annotationAt f) := by
  have hone (cs : List SyntaxTree) : (cs.filterMap fun m =>
      if m.isOneOf annotationTypes then some (annotationAt f m) else none) =
        (cs.filter (·.isOneOf annotationTypes)).map (annotationAt f) := by
    induction cs with
    | nil => rfl
    | cons c cs ih =>
      rw [List.filterMap_cons, List.filter_cons, ih]
      split <;> split <;> simp_all
  simp only [← hone, ← List.filterMap_flatMap]
  rfl

section

variable (hk : KeepsNames k)
include hk

theorem annotationKept (h : Commented k f f' above t t')
    (htype : t.isOneOf annotationTypes = true) :
    AnnotationKept (KeepsMappings f k) (annotationAt f t) (annotationAt f' t') where
  name := congrArg (Text.afterLast · ".") (fieldText_eq hk h (.inl rfl))
  arguments hvalues hmapping := annotationArguments_eq hk hvalues ⟨htype, hmapping⟩ h

theorem annotationsOf_kept (h : Commented k f f' above t t') :
    List.Forall₂ (AnnotationKept (KeepsMappings f k)) (annotationsOf f t)
      (annotationsOf f' t') := by
  rw [annotationsOf_eq, annotationsOf_eq]
  refine List.rel_flatMap (h.forest.filter (passedOver_one hk (by decide))) fun m m' hm => ?_
  have hannotations := hm.filter_namedChildren
    (passedOver hk (show ∀ type ∈ commentTypes, type ∉ annotationTypes by decide))
  refine List.rel_map (fun a a' ha => annotationKept hk ha.2 ha.1)
    ((List.forall₂_and_left _ _).2 ⟨fun a ha => (List.mem_filter.1 ha).2, hannotations⟩)

end

/-! ## Methods -/

/-- Whether a method is as it was: of the same name, its annotations kept, and with the same
exceptions if comments keep out of throws clauses. -/
structure MethodKept (mapped thrown : Prop) (m m' : JavaMethod) : Prop where
  name : m'.name = m.name
  annotations : List.Forall₂ (AnnotationKept mapped) m.annotations m'.annotations
  exceptions : thrown → m'.exceptions = m.exceptions

section

variable (hk : KeepsNames k)
include hk

theorem thrownTypes_eq (hthrown : KeepsThrows k) (h : Commented k f f' above t t') :
    thrownTypes f' t' = thrownTypes f t := by
  have hfound := h.forest.find? (passedOver_one hk (show "throws" ∉ commentTypes by decide))
  have hclause :
      ((t'.children.find? (·.type == "throws")).map fun c => c.namedChildren.map f'.text) =
        (t.children.find? (·.type == "throws")).map fun c => c.namedChildren.map f.text := by
    refine map_eq_of_rel hfound fun c hc c' hcommented => ?_
    have htype : c.type = "throws" := by
      have hthrows := List.find?_some hc
      exact beq_iff_eq.1 hthrows
    have hnone (inner elders : List SyntaxTree) : ¬k.places (inner ++ c :: t :: above) elders :=
      fun hplace => hthrown _ _ hplace c (by simp) htype
    refine map_eq_of_forall₂ (hcommented.forest.filter (Commenting.passedOver_of_none (hnone [])))
      fun e e' he => he.text_eq fun inner elders => ?_
    simpa using hnone (inner ++ [e]) elders
  have hdef (f : SourceFile) (t : SyntaxTree) : thrownTypes f t =
      ((t.children.find? (·.type == "throws")).map fun c =>
        c.namedChildren.map f.text).getD [] := by
    unfold thrownTypes
    cases t.children.find? (·.type == "throws") <;> rfl
  rw [hdef, hdef, hclause]

theorem methodOf_kept (h : Commented k f f' above t t') :
    MethodKept (KeepsMappings f k) (KeepsThrows k) (methodOf f t) (methodOf f' t') where
  name := fieldText_eq hk h (.inl rfl)
  annotations := annotationsOf_kept hk h
  exceptions hthrown := thrownTypes_eq hk hthrown h

theorem methodsOf_kept (h : Commented k f f' above t t') :
    List.Forall₂ (MethodKept (KeepsMappings f k) (KeepsThrows k)) (methodsOf f t)
      (methodsOf f' t') := by
  have hbody := h.child? (show "body" ≠ "" by decide)
  unfold methodsOf
  generalize t.child? "body" = body at hbody ⊢
  generalize t'.child? "body" = body' at hbody ⊢
  cases hbody with
  | none => exact .nil
  | some hbody =>
    exact List.rel_map (fun m m' hm => methodOf_kept hk hm)
      (hbody.filter_namedChildren (passedOver hk (by decide)))

/-! ## Files -/

theorem primaryDeclaration?_kept (hpath : f'.path = f.path) {ds ds' : List SyntaxTree}
    (h : List.Forall₂ (Commented k f f' above) ds ds') :
    Option.Rel (Commented k f f' above) (primaryDeclaration? f ds)
      (primaryDeclaration? f' ds') := by
  have hfind := rel_find? h (p := fun d => f.fieldText d "name" == f.path.stem)
    (q := fun d => f'.fieldText d "name" == f'.path.stem) fun d d' hd => by
      rw [fieldText_eq hk hd (.inl rfl), hpath]
  unfold primaryDeclaration?
  generalize ds.find? (fun d => f.fieldText d "name" == f.path.stem) = found at hfind ⊢
  generalize ds'.find? (fun d => f'.fieldText d "name" == f'.path.stem) = found' at hfind ⊢
  cases hfind with
  | none => exact rel_head? h
  | some hd => exact .some hd

end

/-- Whether a file is as it was: of the same name, with the same imports, and its type of the same
name, the annotations and methods kept. -/
structure FileKept (mapped thrown : Prop) (j j' : JavaFile) : Prop where
  stem : j'.stem = j.stem
  imports : j'.imports = j.imports
  typeName : j'.typeName = j.typeName
  annotations : List.Forall₂ (AnnotationKept mapped) j.annotations j'.annotations
  methods : List.Forall₂ (MethodKept mapped thrown) j.methods j'.methods

/-- The declaration of the unit that a file is. -/
def primary? (f : SourceFile) : Option SyntaxTree :=
  primaryDeclaration? f (f.tree.namedChildren.filter fun c => c.isOneOf typeDeclarations)

theorem primary?_kept (hk : KeepsNames k) (hpath : f'.path = f.path)
    (h : Commented k f f' [] f.tree f'.tree) :
    Option.Rel (Commented k f f' [f.tree]) (primary? f) (primary? f') :=
  primaryDeclaration?_kept hk hpath (h.filter_namedChildren
    (passedOver hk (show ∀ type ∈ commentTypes, type ∉ typeDeclarations by decide)))

theorem imports_ofSource_eq (hk : KeepsNames k) (h : Commented k f f' [] f.tree f'.tree) :
    (ofSource f').imports = (ofSource f).imports := by
  have hdef (f : SourceFile) : (ofSource f).imports =
      (f.tree.namedChildren.filter (·.type == "import_declaration")).map (importOf f) := rfl
  rw [hdef, hdef]
  exact map_eq_of_forall₂ (h.filter_namedChildren (passedOver_one hk (by decide)))
    fun _ _ hi => importOf_eq hk hi

theorem ofSource_kept (hk : KeepsNames k) (hpath : f'.path = f.path)
    (h : Commented k f f' [] f.tree f'.tree) :
    FileKept (KeepsMappings f k) (KeepsThrows k) (ofSource f) (ofSource f') := by
  have hstem (f : SourceFile) : (ofSource f).stem = f.path.stem := rfl
  have htype (f : SourceFile) :
      (ofSource f).typeName = ((primary? f).map fun p => f.fieldText p "name").getD "" := rfl
  have hannotations (f : SourceFile) :
      (ofSource f).annotations = ((primary? f).map (annotationsOf f)).getD [] := rfl
  have hmethods (f : SourceFile) :
      (ofSource f).methods = ((primary? f).map (methodsOf f)).getD [] := rfl
  have hprimary := primary?_kept hk hpath h
  refine ⟨by rw [hstem, hstem, hpath], imports_ofSource_eq hk h, ?_, ?_, ?_⟩
  · rw [htype, htype, map_eq_of_rel hprimary fun p _ p' hp => fieldText_eq hk hp (.inl rfl)]
  · rw [hannotations, hannotations]
    exact getD_map_of_rel hprimary fun _ _ hp => annotationsOf_kept hk hp
  · rw [hmethods, hmethods]
    exact getD_map_of_rel hprimary fun _ _ hp => methodsOf_kept hk hp

theorem map_extractedMethods {γ : Type} {j : JavaFile} {g : Method → γ} (g' : JavaMethod → γ)
    (h : ∀ m verb path, g (.extracted m.name m.exceptions verb path (some m.line)) = g' m) :
    j.extractedMethods.map g = j.methods.map g' := by
  unfold extractedMethods
  rw [List.map_map]
  refine List.map_congr_left fun m _ => ?_
  dsimp only [Function.comp_apply]
  split <;> exact h m _ _

namespace FileKept

variable {mapped thrown : Prop} {j j' : JavaFile}

section

variable (h : FileKept mapped thrown j j')
include h

theorem unitName_eq : j'.unitName = j.unitName := by
  unfold unitName
  rw [h.typeName, h.stem]

theorem isEntryPoint_eq : j'.isEntryPoint = j.isEntryPoint := by
  have hnames {as as' : List JavaAnnotation} (has : List.Forall₂ (AnnotationKept mapped) as as') :
      (as'.any fun a => entryPointAnnotations.contains a.name) =
        as.any fun a => entryPointAnnotations.contains a.name :=
    any_eq_of_forall₂ has fun a a' ha => by rw [ha.name]
  unfold isEntryPoint
  rw [List.any_append, List.any_append, List.any_flatMap, List.any_flatMap, hnames h.annotations,
    any_eq_of_forall₂ h.methods fun m m' hm => hnames hm.annotations]

theorem kind_eq : j'.kind = j.kind := by
  have hkind : (j'.annotations.findSome? fun a => annotationKind? a.name) =
      j.annotations.findSome? fun a => annotationKind? a.name :=
    findSome?_eq_of_forall₂ h.annotations fun a a' ha => by rw [ha.name]
  have hlistens : (j'.methods.any fun m =>
        m.annotations.any fun a => listenerAnnotations.contains a.name) =
      j.methods.any fun m => m.annotations.any fun a => listenerAnnotations.contains a.name :=
    any_eq_of_forall₂ h.methods fun m m' hm =>
      any_eq_of_forall₂ hm.annotations fun a a' ha => by rw [ha.name]
  unfold kind
  rw [hkind, hlistens, h.unitName_eq]

theorem names_eq : j'.extractedMethods.map (·.name) = j.extractedMethods.map (·.name) := by
  rw [map_extractedMethods (·.name) fun _ _ _ => rfl,
    map_extractedMethods (·.name) fun _ _ _ => rfl]
  exact map_eq_of_forall₂ h.methods fun m m' hm => hm.name

theorem exceptions_eq (hthrown : thrown) :
    j'.extractedMethods.map (·.exceptions) = j.extractedMethods.map (·.exceptions) := by
  rw [map_extractedMethods (·.exceptions) fun _ _ _ => rfl,
    map_extractedMethods (·.exceptions) fun _ _ _ => rfl]
  exact map_eq_of_forall₂ h.methods fun m m' hm => hm.exceptions hthrown

end

theorem mappingOf?_eq (hmapped : mapped) {a a' : JavaAnnotation} (h : AnnotationKept mapped a a') :
    mappingOf? a' = mappingOf? a := by
  by_cases hmapping : IsMapping a.name
  · obtain ⟨name, arguments⟩ := a
    obtain ⟨name', arguments'⟩ := a'
    obtain rfl : name' = name := h.name
    obtain rfl : arguments' = arguments := h.arguments hmapped hmapping
    rfl
  · unfold IsMapping at hmapping
    rw [not_or, Option.not_isSome_iff_eq_none] at hmapping
    have hnone {b : JavaAnnotation} (hb : b.name = a.name) : mappingOf? b = none := by
      unfold mappingOf?
      rw [hb, hmapping.1, if_neg hmapping.2]
    rw [hnone h.name, hnone rfl]

theorem basePath?_eq (hmapped : mapped) (h : FileKept mapped thrown j j') :
    j'.basePath? = j.basePath? := by
  have hpath {as as' : List JavaAnnotation} (has : List.Forall₂ (AnnotationKept mapped) as as') :
      ((as'.filter (·.name == "RequestMapping")).map mappingPath?) =
        (as.filter (·.name == "RequestMapping")).map mappingPath? := by
    induction has with
    | nil => rfl
    | cons ha _ ih =>
      rw [List.filter_cons, List.filter_cons, ha.name]
      split
      · next hname =>
        have hsame := ha.arguments hmapped (.inr (beq_iff_eq.1 hname))
        rw [List.map_cons, List.map_cons, ih]
        unfold mappingPath?
        rw [hsame]
      · exact ih
  have hdef (j : JavaFile) : j.basePath? =
      (((j.annotations.filter (·.name == "RequestMapping")).map mappingPath?).getLast?).join := by
    unfold basePath?
    rw [List.getLast?_map]
    cases (j.annotations.filter (·.name == "RequestMapping")).getLast? <;> rfl
  rw [hdef, hdef, hpath h.annotations]

theorem endpoints_eq (hmapped : mapped) (h : FileKept mapped thrown j j') :
    (j'.extractedMethods.map fun m => (m.httpMethod, m.httpPath)) =
      j.extractedMethods.map fun m => (m.httpMethod, m.httpPath) := by
  unfold extractedMethods
  rw [List.map_map, List.map_map]
  refine map_eq_of_forall₂ h.methods fun m m' hm => ?_
  have hmapping := findSome?_eq_of_forall₂ hm.annotations fun a a' => mappingOf?_eq hmapped
  dsimp only [Function.comp_apply]
  rw [hmapping, basePath?_eq hmapped h]
  split <;> rfl

end FileKept

end JavaFile

end CodeAtlas
