import CodeAtlas.Proofs.Query.Answered
import CodeAtlas.Proofs.Graph.WellFormed

/-!
# Neighbours asked from both sides

The dependencies of one node and the dependents of another are asked by different queries and
shown in three different answers. For nodes that a query can name in full, all of them read the
same two sides of one edge, whatever other nodes are called.
-/

namespace CodeAtlas

/-! ## Queries that name a node in full -/

namespace Query

/-- Whether a query can name a node by its whole identifier: it can stand between colons, is no
modifier, and is not one of the words for a whole project. -/
structure Addressable (id : String) : Prop where
  plain : Plain id
  unsigned : isModifier id = false
  unreserved : isKeyword id = false

theorem Addressable.isNavigation {id : String} (h : Addressable id) : isNavigation id = true := by
  simp [Query.isNavigation, h.plain.held, h.unsigned]

theorem plain_of_trimChars_eq {piece : String} (hheld : piece ≠ "")
    (htrimmed : Text.trimChars piece.toList = piece.toList) (hcolonless : ':' ∉ piece.toList) :
    Plain piece :=
  ⟨hheld, htrimmed ▸ Text.trimmed_trimChars piece.toList, hcolonless⟩

/-- The words that ask for the neighbours of a class can stand between colons. -/
theorem plain_dependencies : Plain "dependencies" :=
  plain_of_trimChars_eq (by decide) (by decide) (by decide)

theorem plain_dependents : Plain "dependents" :=
  plain_of_trimChars_eq (by decide) (by decide) (by decide)

/-- A node's identifier followed by one of the words that navigate from it is a query. -/
theorem Addressable.grammatical {id project : String} (h : Addressable id)
    (hproject : Plain project)
    {rest : List String} (hrest : rest = [] ∨ rest = ["dependencies"] ∨ rest = ["dependents"]) :
    Grammatical project (id :: rest) where
  continued := List.cons_ne_nil _ _
  named := hproject.held
  targeted := ⟨id, List.mem_cons_self, h.plain.held⟩
  leading := by
    intro part hpart
    rw [List.find?_cons_of_pos (by simpa using h.plain.held)] at hpart
    obtain rfl := Option.some.inj hpart
    exact h.unsigned
  worded := by
    intro part hpart hsign
    rcases List.mem_cons.1 hpart with rfl | hlater
    · rw [h.unsigned] at hsign
      cases hsign
    · rcases hrest with rfl | rfl | rfl
      · cases hlater
      · obtain rfl := List.mem_singleton.1 hlater
        exact absurd hsign (by decide)
      · obtain rfl := List.mem_singleton.1 hlater
        exact absurd hsign (by decide)
  navigable := by
    rw [List.filter_cons_of_pos h.isNavigation]
    rcases hrest with rfl | rfl | rfl
    · exact Or.inr (Or.inl rfl)
    · exact Or.inr (Or.inr ⟨id, "dependencies", [], rfl, by decide, by decide⟩)
    · exact Or.inr (Or.inr ⟨id, "dependents", [], rfl, by decide, by decide⟩)

/-- A text whose parts follow the grammar is read as the query of those parts. -/
theorem parse_join {project : String} {later : List String}
    (hplain : ∀ piece ∈ project :: later, Plain piece) (hgrammar : Grammatical project later) :
    ∃ raw, parse (Text.join ":" (project :: later)) =
      .ok ⟨raw, project, later.filterMap tokenOf?⟩ :=
  ⟨_, (parse_eq_ok_iff _ _).2 ⟨project, later, parts_join hplain, hgrammar, rfl⟩⟩

end Query

namespace Graph

/-- A node that is named in full is found, whatever the others are called. -/
theorem resolve?_of_contains {g : Graph} {id : String} (h : g.contains id = true) :
    g.resolve? id = some id := by
  rw [resolve?, if_pos h]

/-- A full identifier with nothing to check leads to the view that the words after it ask for. -/
theorem onGraph_of_addressable {q : Query} {g : Graph} {id : String} {rest : List String}
    {view : Query.ClassView} (hid : Query.Addressable id) (hnode : g.contains id = true)
    (hwords : q.navigations = id :: rest) (hchecks : q.checkWord? = none)
    (hview : Query.classView rest = .ok view) : q.onGraph g = q.viewClass g id view := by
  have hkeyword : Text.toLower id ∉ Query.keywords := by
    simpa [Query.isKeyword] using hid.unreserved
  simp only [Query.keywords, List.mem_cons, List.not_mem_nil, or_false, not_or] at hkeyword
  unfold Query.onGraph Query.navigateClass
  simp only [hwords, hkeyword, if_false, resolve?_of_contains hnode, hchecks, hview]
  rfl

end Graph

/-! ## Projects with names of their own -/

namespace Registry

/-- Whether no other project has a name, ignoring case. -/
def NameIsFree (r : Registry) (id name : String) : Prop :=
  ∀ e ∈ r.entries.toList, e.1 ≠ id → Text.sameIgnoringCase e.2.name name = false

/-- A project that is published under a name of its own is found by it. -/
theorem getByName?_put_of_free {r : Registry} {id name : String} (hfree : r.NameIsFree id name)
    (g : Graph) : (r.put id name g).getByName? name = some g := by
  have hsame : Text.sameIgnoringCase name name = true := by simp [Text.sameIgnoringCase]
  obtain ⟨⟨es⟩⟩ := r
  unfold NameIsFree Dict.toList at hfree
  unfold put getByName? Dict.insert Dict.values
  dsimp only at hfree ⊢
  induction es with
  | nil => simp [Dict.put, hsame]
  | cons e rest ih =>
    by_cases hid : e.1 = id
    · simp [Dict.put, hid, hsame]
    · have hother := hfree e List.mem_cons_self hid
      have hrest := ih fun e' he' => hfree e' (List.mem_cons_of_mem _ he')
      simpa [Dict.put, hid, hother] using hrest

/-- A query text of a published project is answered on its graph. -/
theorem execute_join {r : Registry} {project : String} {later : List String} {g : Graph}
    (hgraph : r.getByName? project = some g)
    (hplain : ∀ piece ∈ project :: later, Query.Plain piece)
    (hgrammar : Query.Grammatical project later) :
    ∃ raw, r.execute (some (Text.join ":" (project :: later))) =
      settle project (Query.onGraph ⟨raw, project, later.filterMap Query.tokenOf?⟩ g) := by
  obtain ⟨raw, hparse⟩ := Query.parse_join hplain hgrammar
  refine ⟨raw, ?_⟩
  unfold execute executeQuery Query.answer
  rw [Query.parse?, hparse]
  simp only [hgraph]

section

variable {r : Registry} {g : Graph} {p id : String}

/-- A query for one view of a node that is named in full gets that view. -/
theorem execute_view (hgraph : r.getByName? p = some g) (hp : Query.Plain p)
    (hid : Query.Addressable id) (hnode : g.contains id = true) {rest : List String}
    (hrest : rest = [] ∨ rest = ["dependencies"] ∨ rest = ["dependents"])
    {view : Query.ClassView} (hview : Query.classView rest = .ok view) :
    ∃ q : Query, q.project = p ∧ q.hasInclude "logic" = false ∧
      r.execute (some (Text.join ":" (p :: id :: rest))) = settle p (q.viewClass g id view) := by
  have hplain : ∀ piece ∈ p :: id :: rest, Query.Plain piece := by
    rcases hrest with rfl | rfl | rfl <;>
      simp [hp, hid.plain, Query.plain_dependencies, Query.plain_dependents]
  obtain ⟨raw, hanswer⟩ := execute_join hgraph hplain (hid.grammatical hp hrest)
  have htokens : (id :: rest).filterMap Query.tokenOf? =
      (id :: rest).map fun word => ⟨.navigate, word⟩ := by
    rw [List.filterMap_cons_some (Query.tokenOf?_of_isNavigation hid.isNavigation)]
    rcases hrest with rfl | rfl | rfl <;> rfl
  rw [htokens] at hanswer
  refine ⟨⟨raw, p, (id :: rest).map fun word => ⟨.navigate, word⟩⟩, rfl, ?_,
    hanswer.trans (congrArg _ ?_)⟩
  · rcases hrest with rfl | rfl | rfl <;> rfl
  · refine Graph.onGraph_of_addressable hid hnode ?_ ?_ hview
    · rcases hrest with rfl | rfl | rfl <;> rfl
    · rcases hrest with rfl | rfl | rfl <;> rfl

theorem execute_overview (hgraph : r.getByName? p = some g) (hp : Query.Plain p)
    (hid : Query.Addressable id) (hnode : g.contains id = true) :
    r.execute (some (Text.join ":" [p, id])) = .ok (.of "class" p [g.overviewItem false id]) := by
  obtain ⟨q, hproject, hlogic, hanswer⟩ := execute_view hgraph hp hid hnode (Or.inl rfl) rfl
  rw [hanswer, Query.viewClass, hproject, hlogic]
  rfl

theorem execute_dependencies (hgraph : r.getByName? p = some g) (hp : Query.Plain p)
    (hid : Query.Addressable id) (hnode : g.contains id = true) :
    r.execute (some (Text.join ":" [p, id, "dependencies"])) =
      .ok (.of "dependencies" p
        ((g.dependencies id).map fun n => .object (g.summaryFields n))) := by
  have hview : Query.classView ["dependencies"] = .ok .dependencies := rfl
  obtain ⟨q, hproject, -, hanswer⟩ :=
    execute_view hgraph hp hid hnode (Or.inr (Or.inl rfl)) hview
  rw [hanswer, Query.viewClass, hproject]
  rfl

theorem execute_dependents (hgraph : r.getByName? p = some g) (hp : Query.Plain p)
    (hid : Query.Addressable id) (hnode : g.contains id = true) :
    r.execute (some (Text.join ":" [p, id, "dependents"])) =
      .ok (.of "dependents" p ((g.dependents id).map fun n => .object (g.summaryFields n))) := by
  have hview : Query.classView ["dependents"] = .ok .dependents := rfl
  obtain ⟨q, hproject, -, hanswer⟩ :=
    execute_view hgraph hp hid hnode (Or.inr (Or.inr rfl)) hview
  rw [hanswer, Query.viewClass, hproject]
  rfl

/-- The list of all classes, with both sides of their edges. -/
theorem execute_classes (hgraph : r.getByName? p = some g) (hp : Query.Plain p) :
    r.execute (some (Text.join ":" [p, "classes", "+dependencies", "+dependents"])) =
      .ok (.of "classes" p (g.identifiers.map (g.classItem true true false))) := by
  have hplain : ∀ piece ∈ [p, "classes", "+dependencies", "+dependents"], Query.Plain piece := by
    intro piece hpiece
    simp only [List.mem_cons, List.not_mem_nil, or_false] at hpiece
    rcases hpiece with rfl | rfl | rfl | rfl
    · exact hp
    all_goals exact Query.plain_of_trimChars_eq (by decide) (by decide) (by decide)
  have hgrammar : Query.Grammatical p ["classes", "+dependencies", "+dependents"] :=
    { continued := by decide
      named := hp.held
      targeted := ⟨"classes", by decide, by decide⟩
      leading := by decide
      worded := by decide
      navigable := Or.inr (Or.inl (by decide)) }
  obtain ⟨raw, hanswer⟩ := execute_join hgraph hplain hgrammar
  rw [hanswer]
  rfl

end

end Registry

/-! ## Both sides of an edge -/

namespace Graph

/-- Whether an item tells a node's own name, kind, description and source file. -/
structure Describes (g : Graph) (id : String) (item : Json) : Prop where
  name : item.field? "className" = some (.string id)
  kind : item.field? "classType" =
    some (Json.ofOption (fun i : NodeInfo => .string i.kind.name) (g.nodeInfo? id))
  description : item.field? "description" = some (Json.ofOption .string (g.description? id))
  sourceFile : ∃ file, g.sourceFile? id = some file ∧
    item.field? "sourceFile" = some (.string file)

/-- An item that begins with the describing fields of a node describes it. -/
theorem describes_summaryFields {g : Graph} {id : String} (h : g.contains id = true)
    (more : List (String × Json)) : g.Describes id (.object (g.summaryFields id ++ more)) := by
  obtain ⟨file, hfile⟩ := Dict.exists_get?_of_contains h
  refine ⟨rfl, rfl, rfl, file, hfile, ?_⟩
  have hfield : (Json.object (g.summaryFields id ++ more)).field? "sourceFile" =
      some (Json.ofOption .string (g.sourceFile? id)) := rfl
  rw [hfield, sourceFile?, hfile]
  rfl

theorem forall₂_describes {g : Graph} {ids : List String} (h : ∀ n ∈ ids, g.contains n = true) :
    List.Forall₂ g.Describes ids (ids.map fun n => .object (g.summaryFields n)) := by
  rw [List.forall₂_map_right_iff, List.forall₂_same]
  intro n hn
  have hitem := describes_summaryFields (h n hn) []
  rwa [List.append_nil] at hitem

end Graph

namespace Registry

/-- In a graph that was reached by any changes and is published under a name of its own, take two
nodes that a query can name in full. The dependencies of the one list the other exactly if the
dependents of the other list the one. Each list names nobody twice, describes every neighbour as
the graph does, and is the one in the overview of its node and in the list of all classes. -/
theorem neighbours_dual (changes : List Mutation) (r : Registry) {id p a b : String}
    (hp : Query.Plain p) (hfree : r.NameIsFree id p)
    (ha : Query.Addressable a) (hb : Query.Addressable b)
    (hnodeA : (Mutation.applyAll changes .empty).contains a = true)
    (hnodeB : (Mutation.applyAll changes .empty).contains b = true) :
    let g := Mutation.applyAll changes .empty
    let published := r.put id p g
    (b ∈ g.dependencies a ↔ a ∈ g.dependents b) ∧
    (g.dependencies a).Nodup ∧ (g.dependents b).Nodup ∧
    (∃ items, published.execute (some (Text.join ":" [p, a, "dependencies"])) =
        .ok (.of "dependencies" p items) ∧
      List.Forall₂ g.Describes (g.dependencies a) items) ∧
    (∃ items, published.execute (some (Text.join ":" [p, b, "dependents"])) =
        .ok (.of "dependents" p items) ∧
      List.Forall₂ g.Describes (g.dependents b) items) ∧
    (∃ item, published.execute (some (Text.join ":" [p, a])) = .ok (.of "class" p [item]) ∧
      g.Describes a item ∧
      item.field? "dependencies" = some (Json.ofStrings (g.dependencies a))) ∧
    (∃ item, published.execute (some (Text.join ":" [p, b])) = .ok (.of "class" p [item]) ∧
      g.Describes b item ∧
      item.field? "dependents" = some (Json.ofStrings (g.dependents b))) ∧
    (∃ items,
      published.execute (some (Text.join ":" [p, "classes", "+dependencies", "+dependents"])) =
        .ok (.of "classes" p items) ∧
      List.Forall₂ (fun n item => g.Describes n item ∧
        item.field? "dependencies" = some (Json.ofStrings (g.dependencies n)) ∧
        item.field? "dependents" = some (Json.ofStrings (g.dependents n)))
          g.identifiers items) := by
  intro g published
  have hg : g.WellFormed := .applyAll .of_empty changes
  have hgraph : published.getByName? p = some g := getByName?_put_of_free hfree g
  have hdependents : ∀ n ∈ g.dependents b, g.contains n = true :=
    fun n hn => (hg.edges.ends n b ((hg.edges.mirrored n b).2 hn)).1
  refine ⟨hg.edges.mirrored a b, hg.edges.dependencies_nodup a, hg.edges.dependents_nodup b,
    ⟨_, execute_dependencies hgraph hp ha hnodeA, ?_⟩,
    ⟨_, execute_dependents hgraph hp hb hnodeB, Graph.forall₂_describes hdependents⟩,
    ⟨_, execute_overview hgraph hp ha hnodeA, ?_, rfl⟩,
    ⟨_, execute_overview hgraph hp hb hnodeB, ?_, rfl⟩,
    ⟨_, execute_classes hgraph hp, ?_⟩⟩
  · exact Graph.forall₂_describes fun n hn => (hg.edges.ends a n hn).2
  · exact Graph.describes_summaryFields hnodeA _
  · exact Graph.describes_summaryFields hnodeB _
  · rw [List.forall₂_map_right_iff, List.forall₂_same]
    intro n hn
    have hnode : g.contains n = true := (Dict.contains_iff_mem_keys _ n).2 hn
    refine ⟨?_, rfl, rfl⟩
    simp only [Graph.classItem, List.append_assoc]
    exact Graph.describes_summaryFields hnode _

/-- Two nodes share a simple name, and a third one's identifier holds those of both. -/
def namesakeChanges : List Mutation :=
  [.addNode "x.Cart" "x/Cart.java", .addNode "y.Cart" "y/Cart.java",
    .addNode "x.Cart.y.Cart" "z.java", .addDependency "x.Cart" "y.Cart",
    .addDependency "x.Cart.y.Cart" "y.Cart"]

/-- The namesakes are told apart, next to another project. -/
theorem neighbours_dual_of_namesakes :
    let r := empty.put "q" "other" .empty
    let published := r.put "p" "shop" (Mutation.applyAll namesakeChanges .empty)
    (∃ items, published.execute (some "shop:x.Cart:dependencies") =
        .ok (.of "dependencies" "shop" items) ∧
      List.Forall₂ (Mutation.applyAll namesakeChanges .empty).Describes ["y.Cart"] items) ∧
    (∃ items, published.execute (some "shop:y.Cart:dependents") =
        .ok (.of "dependents" "shop" items) ∧
      List.Forall₂ (Mutation.applyAll namesakeChanges .empty).Describes
        ["x.Cart", "x.Cart.y.Cart"] items) := by
  intro r published
  have hplain (piece : String) (h : piece = "shop" ∨ piece = "x.Cart" ∨ piece = "y.Cart") :
      Query.Plain piece := by
    rcases h with rfl | rfl | rfl <;>
      exact Query.plain_of_trimChars_eq (by decide) (by decide) (by decide)
  have hfree : r.NameIsFree "p" "shop" := by
    intro e he
    obtain rfl : e = ("q", ⟨"other", .empty⟩) := List.mem_singleton.1 he
    decide
  have hdual := neighbours_dual namesakeChanges r (hplain "shop" (by simp)) hfree
    (a := "x.Cart") (b := "y.Cart") ⟨hplain _ (by simp), by decide, by decide⟩
    ⟨hplain _ (by simp), by decide, by decide⟩ (by decide +kernel) (by decide +kernel)
  have hdependencies :
      (Mutation.applyAll namesakeChanges .empty).dependencies "x.Cart" = ["y.Cart"] := by
    decide +kernel
  have hdependents : (Mutation.applyAll namesakeChanges .empty).dependents "y.Cart" =
      ["x.Cart", "x.Cart.y.Cart"] := by
    decide +kernel
  obtain ⟨-, -, -, hfirst, hsecond, -⟩ := hdual
  rw [hdependencies] at hfirst
  rw [hdependents] at hsecond
  exact ⟨hfirst, hsecond⟩

end Registry

end CodeAtlas
