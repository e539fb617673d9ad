import CodeAtlas.Proofs.Source.Comments.Java
import CodeAtlas.Proofs.Source.Comments.Scripts

/-!
# What comments leave unchanged

A file with comments inserted is found to be what it was without them, but for three slips: in Java
a comment in a throws clause counts as an exception, and in front of all elements of an array as its
value; in scripts a comment behind a decorator takes it away from the member of a class, and one in
front of a first argument takes its place.
-/

namespace CodeAtlas

/-- Comments change neither the kind of a Java file nor whether it is an entry point, its imports
and the names of its methods, unless they stand within a name. The exceptions are the same if no
comment stands in a throws clause; the verbs and paths are if none in a mapping annotation stands
within a value or in front of all elements of an array. In script modules nothing at all changes, if
no comment stands within a text that is read as a whole, in front of a first argument that is read,
and behind a decorator, unless in an export statement. -/
theorem comments_change_nothing (k : Commenting) (f f' : SourceFile) (hpath : f'.path = f.path)
    (h : Commented k f f' [] f.tree f'.tree) :
    (JavaFile.KeepsNames k →
      let j := JavaFile.ofSource f
      let j' := JavaFile.ofSource f'
      j'.kind = j.kind ∧ j'.isEntryPoint = j.isEntryPoint ∧ j'.imports = j.imports ∧
        j'.extractedMethods.map (·.name) = j.extractedMethods.map (·.name) ∧
        (JavaFile.KeepsThrows k →
          j'.extractedMethods.map (·.exceptions) = j.extractedMethods.map (·.exceptions)) ∧
        (JavaFile.KeepsMappings f k →
          (j'.extractedMethods.map fun m => (m.httpMethod, m.httpPath)) =
            j.extractedMethods.map fun m => (m.httpMethod, m.httpPath))) ∧
    (TypeScript.Harmless k → ∀ path framework,
      TypeScript.SameFindings (TypeScript.analyze f path framework)
        (TypeScript.analyze f' path framework)) := by
  refine ⟨fun hk => ?_, fun hk path framework => TypeScript.analyze_kept hk h path framework⟩
  have hkept := JavaFile.ofSource_kept hk hpath h
  exact ⟨hkept.kind_eq, hkept.isEntryPoint_eq, hkept.imports, hkept.names_eq,
    fun hthrown => hkept.exceptions_eq hthrown, fun hmapped => hkept.endpoints_eq hmapped⟩

/-- A comment of four characters. -/
def commentAt (type : String) (start : Nat) : SyntaxTree :=
  .node type true "" start (start + 4) []

theorem isComment_commentAt {k : Commenting} {type : String} (h : type ∈ k.types) (start : Nat) :
    k.IsComment (commentAt type start) :=
  ⟨h, rfl, rfl, rfl⟩

/-- A node below which comments are inserted, in files where that is seen in its text. -/
theorem Commented.around {k : Commenting} {f f' : SourceFile} {above cs cs' : List SyntaxTree}
    {type field : String} {named : Bool} {start stop : Nat}
    (hsize : SyntaxTree.forestSize cs' ≠ SyntaxTree.forestSize cs)
    (h : ¬IsWord (f.slice start stop)) (h' : ¬IsWord (f'.slice start stop))
    (hforest : CommentedForest k f f' (.node type named field start stop cs :: above) [] cs cs') :
    Commented k f f' above (.node type named field start stop cs)
      (.node type named field start stop cs') := by
  refine .node rfl rfl rfl ⟨fun heq => absurd ?_ hsize, fun _ => ⟨h, h'⟩⟩ hforest
  simpa only [SyntaxTree.size, Nat.add_left_cancel_iff] using heq

/-- Nodes in bytes that are the same in two files are of the same texts. -/
theorem texts_eq_of_extract {f f' : SourceFile} {start stop : Nat}
    (h : f'.content.extract start stop = f.content.extract start stop) {ns : List SyntaxTree}
    (hns : ∀ n ∈ ns, start ≤ n.start ∧ n.start ≤ n.stop ∧ n.stop ≤ stop) :
    ∀ n ∈ ns, f'.text n = f.text n := by
  intro n hn
  obtain ⟨hstart, hordered, hstop⟩ := hns n hn
  have hextract (f : SourceFile) : (f.content.extract start stop).extract (n.start - start)
      (n.stop - start) = f.content.extract n.start n.stop := by
    rw [ByteArray.extract_extract]
    congr 1 <;> omega
  unfold SourceFile.text SourceFile.slice
  rw [← hextract, ← hextract, h]

namespace JavaFile

/-- A class with a constructor that declares an exception. Comments in the throws clause and at the
end of the class stand where there are blanks without them. -/
def throwingClass (content : String) (inThrows inBody : List SyntaxTree) : SourceFile where
  path := ⟨true, ["C.java"]⟩
  content := content.toUTF8
  tree := .node "program" true "" 0 29
    [.node "class_declaration" true "" 0 29
      [.node "class" false "" 0 5 [], .node "identifier" true "name" 6 7 [],
      .node "class_body" true "body" 7 29
        (.node "\x7b" false "" 7 8 [] ::
        .node "constructor_declaration" true "" 8 24
          [.node "identifier" true "name" 8 9 [],
          .node "formal_parameters" true "parameters" 9 11
            [.node "(" false "" 9 10 [], .node ")" false "" 10 11 []],
          .node "throws" true "" 11 22
            (.node "throws" false "" 11 17 [] ::
              (inThrows ++ [.node "type_identifier" true "" 21 22 []])),
          .node "constructor_body" true "body" 22 24
            [.node "\x7b" false "" 22 23 [], .node "\x7d" false "" 23 24 []]] ::
        (inBody ++ [.node "\x7d" false "" 28 29 []]))]]

/-- The class without comments. -/
def bareClass : SourceFile := throwingClass "class C\x7bC()throws    E\x7b\x7d    \x7d" [] []

/-- The class with a comment at its end. -/
def commentedClass : SourceFile :=
  throwingClass "class C\x7bC()throws    E\x7b\x7d/**/\x7d" [] [commentAt "block_comment" 24]

/-- The class with a comment in its throws clause. -/
def misreadClass : SourceFile :=
  throwingClass "class C\x7bC()throws/**/E\x7b\x7d    \x7d" [commentAt "block_comment" 17] []

/-- No text around a comment is a word, and in front of the comments and behind them the bytes are
the same. -/
theorem texts_of_classes :
    (∀ f ∈ [bareClass, commentedClass, misreadClass],
      ∀ s ∈ [(0, 29), (7, 29), (8, 24), (11, 22)], ¬IsWord (f.slice s.1 s.2)) ∧
    (commentedClass.content.extract 0 24 = bareClass.content.extract 0 24 ∧
      commentedClass.content.extract 28 29 = bareClass.content.extract 28 29) ∧
    misreadClass.content.extract 0 17 = bareClass.content.extract 0 17 ∧
      misreadClass.content.extract 21 29 = bareClass.content.extract 21 29 := by
  decide +kernel

theorem exceptions_of_classes :
    (ofSource bareClass).extractedMethods.map (·.exceptions) = [["E"]] ∧
      (ofSource misreadClass).extractedMethods.map (·.exceptions) = [["/**/", "E"]] := by
  decide +kernel

/-- Comments of Java where no names are, no values and no exceptions. -/
def harmless : Commenting where
  types := commentTypes
  places above elders := ¬Within ReadAsName above ∧ ¬Within ReadAsValue above ∧
    ¬LeadsArray above elders ∧ ∀ t ∈ above, t.type ≠ "throws"

theorem keepsNames_harmless : KeepsNames harmless := ⟨rfl, fun _ _ h => h.1⟩

theorem commented_commentedClass :
    Commented harmless bareClass commentedClass [] bareClass.tree commentedClass.tree := by
  obtain ⟨hword, ⟨hfront, hback⟩, -⟩ := texts_of_classes
  have hplain := hword bareClass (by simp)
  have hcommented := hword commentedClass (by simp)
  refine .around (by decide) (hplain (0, 29) (by decide)) (hcommented (0, 29) (by decide))
    (.keep ?_ .nil)
  refine .around (by decide) (hplain (0, 29) (by decide)) (hcommented (0, 29) (by decide))
    (.keep (.refl _ (texts_eq_of_extract hfront (by decide)))
      (.keep (.refl _ (texts_eq_of_extract hfront (by decide))) (.keep ?_ .nil)))
  refine .around (by decide) (hplain (7, 29) (by decide)) (hcommented (7, 29) (by decide))
    (.keep (.refl _ (texts_eq_of_extract hfront (by decide)))
      (.keep (.refl _ (texts_eq_of_extract hfront (by decide)))
        (.insert (isComment_commentAt (by decide) 24) ?_
          (.refl _ (texts_eq_of_extract hback (by decide))))))
  refine ⟨?_, ?_, ?_, ?_⟩
  · simp only [within_cons, not_within_nil, or_false]
    unfold ReadAsName
    decide
  · simp [within_cons, not_within_nil, ReadAsValue, SyntaxTree.isOneOf, SyntaxTree.type,
      SyntaxTree.field]
  · rintro ⟨-, p, outer, heq, htype⟩
    obtain ⟨rfl, -⟩ := List.cons.inj heq
    exact absurd htype (by decide)
  · simp only [List.forall_mem_cons]
    decide

/-- Comments of Java in throws clauses. -/
def amongThrown : Commenting where
  types := commentTypes
  places above _ := ∃ p outer, above = p :: outer ∧ p.type = "throws"

theorem commented_misreadClass :
    Commented amongThrown bareClass misreadClass [] bareClass.tree misreadClass.tree := by
  obtain ⟨hword, -, hfront, hback⟩ := texts_of_classes
  have hplain := hword bareClass (by simp)
  have hcommented := hword misreadClass (by simp)
  refine .around (by decide) (hplain (0, 29) (by decide)) (hcommented (0, 29) (by decide))
    (.keep ?_ .nil)
  refine .around (by decide) (hplain (0, 29) (by decide)) (hcommented (0, 29) (by decide))
    (.keep (.refl _ (texts_eq_of_extract hfront (by decide)))
      (.keep (.refl _ (texts_eq_of_extract hfront (by decide))) (.keep ?_ .nil)))
  refine .around (by decide) (hplain (7, 29) (by decide)) (hcommented (7, 29) (by decide))
    (.keep (.refl _ (texts_eq_of_extract hfront (by decide)))
      (.keep ?_ (.refl _ (texts_eq_of_extract hback (by decide)))))
  refine .around (by decide) (hplain (8, 24) (by decide)) (hcommented (8, 24) (by decide))
    (.keep (.refl _ (texts_eq_of_extract hfront (by decide)))
      (.keep (.refl _ (texts_eq_of_extract hfront (by decide)))
        (.keep ?_ (.refl _ (texts_eq_of_extract hback (by decide))))))
  exact .around (by decide) (hplain (11, 22) (by decide)) (hcommented (11, 22) (by decide))
    (.keep (.refl _ (texts_eq_of_extract hfront (by decide)))
      (.insert (isComment_commentAt (by decide) 17) ⟨_, _, rfl, rfl⟩
        (.refl _ (texts_eq_of_extract hback (by decide)))))

end JavaFile

namespace TypeScript

/-- A class with a method that answers requests. Comments in front of the decorator and behind it
stand where there are blanks without them. -/
def decoratedClass (content : String) (inFront behind : List SyntaxTree) : SourceFile where
  path := ⟨true, ["c.ts"]⟩
  content := content.toUTF8
  tree := .node "program" true "" 0 28
    [.node "class_declaration" true "" 0 28
      [.node "class" false "" 0 5 [], .node "type_identifier" true "name" 6 7 [],
      .node "class_body" true "body" 7 28
        (.node "\x7b" false "" 7 8 [] :: (inFront ++
        .node "decorator" true "decorator" 12 18
          [.node "@" false "" 12 13 [],
          .node "call_expression" true "" 13 18
            [.node "identifier" true "function" 13 16 [],
            .node "arguments" true "arguments" 16 18
              [.node "(" false "" 16 17 [], .node ")" false "" 17 18 []]]] ::
        (behind ++
        [.node "method_definition" true "" 22 27
          [.node "property_identifier" true "name" 22 23 [],
          .node "formal_parameters" true "parameters" 23 25
            [.node "(" false "" 23 24 [], .node ")" false "" 24 25 []],
          .node "statement_block" true "body" 25 27
            [.node "\x7b" false "" 25 26 [], .node "\x7d" false "" 26 27 []]],
        .node "\x7d" false "" 27 28 []])))]]

/-- The class without comments. -/
def bareScript : SourceFile := decoratedClass "class C\x7b    @Get()    m()\x7b\x7d\x7d" [] []

/-- The class with a comment in front of the decorator. -/
def commentedScript : SourceFile :=
  decoratedClass "class C\x7b/**/@Get()    m()\x7b\x7d\x7d" [commentAt "comment" 8] []

/-- The class with a comment behind the decorator. -/
def separatedScript : SourceFile :=
  decoratedClass "class C\x7b    @Get()/**/m()\x7b\x7d\x7d" [] [commentAt "comment" 18]

/-- No text around a comment is a word, and in front of the comments and behind them the bytes are
the same. -/
theorem texts_of_scripts :
    (∀ f ∈ [bareScript, commentedScript, separatedScript],
      ∀ s ∈ [(0, 28), (7, 28)], ¬IsWord (f.slice s.1 s.2)) ∧
    (commentedScript.content.extract 0 8 = bareScript.content.extract 0 8 ∧
      commentedScript.content.extract 12 28 = bareScript.content.extract 12 28) ∧
    separatedScript.content.extract 0 18 = bareScript.content.extract 0 18 ∧
      separatedScript.content.extract 22 28 = bareScript.content.extract 22 28 := by
  decide +kernel

theorem endpoints_of_scripts :
    (analyze bareScript "c.ts" "nestjs").methods.map endpointOf = [("m", some "GET", none)] ∧
      (analyze separatedScript "c.ts" "nestjs").methods.map endpointOf =
        [("m", none, none)] := by
  decide +kernel

/-- Comments of scripts where they are harmless. -/
def harmless : Commenting where
  types := ["comment"]
  places above elders := ¬Within ReadWhole above ∧ ¬HidesArgument above elders ∧
    (¬FollowsDecorator elders ∨ InExport above)

theorem harmless_harmless : Harmless harmless :=
  ⟨rfl, fun _ _ h => h.1, fun _ _ h => h.2.1, fun _ _ h => h.2.2⟩

theorem commented_commentedScript :
    Commented harmless bareScript commentedScript [] bareScript.tree commentedScript.tree := by
  obtain ⟨hword, ⟨hfront, hback⟩, -⟩ := texts_of_scripts
  have hplain := hword bareScript (by simp)
  have hcommented := hword commentedScript (by simp)
  refine .around (by decide) (hplain (0, 28) (by decide)) (hcommented (0, 28) (by decide))
    (.keep ?_ .nil)
  refine .around (by decide) (hplain (0, 28) (by decide)) (hcommented (0, 28) (by decide))
    (.keep (.refl _ (texts_eq_of_extract hfront (by decide)))
      (.keep (.refl _ (texts_eq_of_extract hfront (by decide))) (.keep ?_ .nil)))
  refine .around (by decide) (hplain (7, 28) (by decide)) (hcommented (7, 28) (by decide))
    (.keep (.refl _ (texts_eq_of_extract hfront (by decide)))
      (.insert (isComment_commentAt (by decide) 8) ?_
        (.refl _ (texts_eq_of_extract hback (by decide)))))
  refine ⟨?_, ?_, ?_⟩
  · simp [within_cons, not_within_nil, ReadWhole, SyntaxTree.isOneOf, SyntaxTree.type,
      SyntaxTree.field, memberTypes, functionTypes]
  · rintro ⟨-, args, call, holder, outer, heq, hfield, -⟩
    obtain ⟨rfl, -⟩ := List.cons.inj heq
    exact absurd hfield (by decide)
  · left
    rintro ⟨e, he, -⟩
    cases he

/-- Comments of scripts in the bodies of classes. -/
def amongMembers : Commenting where
  types := ["comment"]
  places above _ := ∃ p outer, above = p :: outer ∧ p.type = "class_body"

theorem commented_separatedScript :
    Commented amongMembers bareScript separatedScript [] bareScript.tree separatedScript.tree := by
  obtain ⟨hword, -, hfront, hback⟩ := texts_of_scripts
  have hplain := hword bareScript (by simp)
  have hcommented := hword separatedScript (by simp)
  refine .around (by decide) (hplain (0, 28) (by decide)) (hcommented (0, 28) (by decide))
    (.keep ?_ .nil)
  refine .around (by decide) (hplain (0, 28) (by decide)) (hcommented (0, 28) (by decide))
    (.keep (.refl _ (texts_eq_of_extract hfront (by decide)))
      (.keep (.refl _ (texts_eq_of_extract hfront (by decide))) (.keep ?_ .nil)))
  exact .around (by decide) (hplain (7, 28) (by decide)) (hcommented (7, 28) (by decide))
    (.keep (.refl _ (texts_eq_of_extract hfront (by decide)))
      (.keep (.refl _ (texts_eq_of_extract hfront (by decide)))
        (.insert (isComment_commentAt (by decide) 18) ⟨_, _, rfl, rfl⟩
          (.refl _ (texts_eq_of_extract hback (by decide))))))

end TypeScript

/-- A comment at the end of a Java class leaves its exceptions as they are, and one in front of a
decorator of a script leaves the method an endpoint. -/
theorem comments_change_nothing_in_samples :
    (JavaFile.ofSource JavaFile.commentedClass).extractedMethods.map (·.exceptions) = [["E"]] ∧
      (TypeScript.analyze TypeScript.commentedScript "c.ts" "nestjs").methods.map
        TypeScript.endpointOf = [("m", some "GET", none)] := by
  obtain ⟨-, -, -, -, hexceptions, -⟩ := (comments_change_nothing JavaFile.harmless
    JavaFile.bareClass JavaFile.commentedClass rfl JavaFile.commented_commentedClass).1
      JavaFile.keepsNames_harmless
  have hfindings := (comments_change_nothing TypeScript.harmless TypeScript.bareScript
    TypeScript.commentedScript rfl TypeScript.commented_commentedScript).2
      TypeScript.harmless_harmless "c.ts" "nestjs"
  exact ⟨(hexceptions fun _ _ h => h.2.2.2).trans JavaFile.exceptions_of_classes.1,
    hfindings.methods.trans TypeScript.endpoints_of_scripts.1⟩

/-- A comment in a throws clause counts as an exception, and one behind a decorator takes the verb
of a method away. -/
theorem comments_misread :
    (Commented JavaFile.amongThrown JavaFile.bareClass JavaFile.misreadClass []
        JavaFile.bareClass.tree JavaFile.misreadClass.tree ∧
      (JavaFile.ofSource JavaFile.bareClass).extractedMethods.map (·.exceptions) = [["E"]] ∧
      (JavaFile.ofSource JavaFile.misreadClass).extractedMethods.map (·.exceptions) =
        [["/**/", "E"]]) ∧
    Commented TypeScript.amongMembers TypeScript.bareScript TypeScript.separatedScript []
        TypeScript.bareScript.tree TypeScript.separatedScript.tree ∧
      (TypeScript.analyze TypeScript.bareScript "c.ts" "nestjs").methods.map
        TypeScript.endpointOf = [("m", some "GET", none)] ∧
      (TypeScript.analyze TypeScript.separatedScript "c.ts" "nestjs").methods.map
        TypeScript.endpointOf = [("m", none, none)] := by
  exact ⟨⟨JavaFile.commented_misreadClass, JavaFile.exceptions_of_classes⟩,
    TypeScript.commented_separatedScript, TypeScript.endpoints_of_scripts⟩

end CodeAtlas
