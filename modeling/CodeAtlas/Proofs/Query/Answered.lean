import CodeAtlas.Proofs.Query.Grammar
import CodeAtlas.Query.Result

/-!
# Answers and refusals

Answering a query takes its navigations apart without looking whether they are there; that they
are is a matter of the grammar. This file says for which reason each query is refused, and proves
that every text is either answered or refused for that reason, and that nothing else can happen.
Details to include and checks may stand anywhere after the first navigation: queries that differ
only in where their modifiers stand, how often they stand there and how they are spelled get the
same result.
-/

namespace CodeAtlas

namespace Query

/-! ## Reasons for a refusal -/

/-- The reasons for which a registry refuses a query that was read. -/
inductive Refused (r : Registry) (q : Query) : ErrorKind → Prop
  | unknownProject (hnames : ∀ name ∈ r.names, Text.sameIgnoringCase name q.project = false) :
      Refused r q .projectNotFound
  | unknownClass {g : Graph} {target : String} {rest : List String}
      (hgraph : r.getByName? q.project = some g) (hwords : q.navigations = target :: rest)
      (hkeyword : isKeyword target = false) (hclass : g.resolve? target = none) :
      Refused r q .classNotFound
  | unknownMethod {g : Graph} {id target sub name : String} {rest : List String}
      (hgraph : r.getByName? q.project = some g)
      (hwords : q.navigations = target :: sub :: name :: rest)
      (hkeyword : isKeyword target = false) (hclass : g.resolve? target = some id)
      (hchecks : q.checks = []) (hsub : Text.toLower sub = "method")
      (hmethods : ∀ m ∈ g.methodsOf id, Text.sameIgnoringCase m.name name = false) :
      Refused r q .methodNotFound

/-- Whether an outcome is an answer if there is no reason to refuse one, and else a report of the
only reason. -/
def Settles (outcome : Outcome QueryResult) (refused : ErrorKind → Prop) : Prop :=
  (∃ type project items, outcome = .ok (.of type project items) ∧ ∀ kind, ¬refused kind) ∨
    ∃ kind message, outcome = .error (.reported kind message) ∧ ∀ k, refused k ↔ k = kind

/-- An answer settles a query that there is no reason to refuse. -/
theorem settles_of {type project : String} {items : List Json} {refused : ErrorKind → Prop}
    (h : ∀ kind, ¬refused kind) : Settles (.ok (.of type project items)) refused :=
  Or.inl ⟨type, project, items, rfl, h⟩

/-- A report settles a query that there is one reason to refuse. -/
theorem settles_reported {kind : ErrorKind} {message : String} {refused : ErrorKind → Prop}
    (h : ∀ k, refused k ↔ k = kind) : Settles (.error (.reported kind message)) refused :=
  Or.inr ⟨kind, message, rfl, h⟩

theorem Settles.congr {outcome : Outcome QueryResult} {p p' : ErrorKind → Prop}
    (h : Settles outcome p) (hp : ∀ kind, p' kind ↔ p kind) : Settles outcome p' := by
  obtain rfl : p' = p := funext fun kind => propext (hp kind)
  exact h

theorem getByName?_eq_none_iff (r : Registry) (project : String) :
    r.getByName? project = none ↔
      ∀ name ∈ r.names, Text.sameIgnoringCase name project = false := by
  simp [Registry.getByName?, Registry.names]

theorem findMethod?_eq_none_iff (g : Graph) (id name : String) :
    g.findMethod? id name = none ↔
      ∀ m ∈ g.methodsOf id, Text.sameIgnoringCase m.name name = false := by
  simp [Graph.findMethod?]

/-! ## Views of a class -/

/-- The words after a class always ask for a view, and for a method exactly if they say so and
name it. -/
theorem exists_classView {target : String} {rest : List String}
    (hrule : NavigationRule (target :: rest)) (hkeyword : isKeyword target = false) :
    ∃ view, classView rest = .ok view ∧ ∀ name, view = .method name ↔
      ∃ sub more, rest = sub :: name :: more ∧ Text.toLower sub = "method" := by
  have htarget : Text.toLower target ∉ keywords := by
    simpa [isKeyword] using hkeyword
  cases rest with
  | nil => exact ⟨.overview, rfl, by simp⟩
  | cons sub more =>
    have hsub : Text.toLower sub ∈ subNavigations ∧ (Text.toLower sub = "method" → more ≠ []) := by
      simpa [NavigationRule, htarget] using hrule
    obtain ⟨hknown, hnamed⟩ := hsub
    simp only [subNavigations, List.mem_cons, List.not_mem_nil, or_false] at hknown
    rcases hknown with hword | hword | hword | hword
    · exact ⟨.dependencies, by simp [classView, hword], by simp [hword]⟩
    · exact ⟨.dependents, by simp [classView, hword], by simp [hword]⟩
    · obtain ⟨name, others, rfl⟩ := List.exists_cons_of_ne_nil (hnamed hword)
      exact ⟨.method name, by simp [classView, hword], by simp [hword]⟩
    · exact ⟨.methods, by simp [classView, hword], by simp [hword]⟩

/-- A view of a class is refused exactly if it is of a method that the class lacks. -/
theorem settles_viewClass (q : Query) (g : Graph) (id : String) (view : ClassView) :
    Settles (q.viewClass g id view) fun kind => kind = .methodNotFound ∧
      ∃ name, view = .method name ∧ g.findMethod? id name = none := by
  cases view with
  | overview => exact settles_of (by simp)
  | methods => exact settles_of (by simp)
  | dependencies => exact settles_of (by simp)
  | dependents => exact settles_of (by simp)
  | method name =>
    cases hmethod : g.findMethod? id name with
    | some m =>
      simp only [viewClass, hmethod]
      exact settles_of (by simp [hmethod])
    | none =>
      simp only [viewClass, hmethod]
      exact settles_reported (by simp [hmethod])

/-! ## Queries -/

section

variable {r : Registry} {q : Query} {g : Graph} {target : String} {rest : List String}

/-- There are two reasons to refuse a query of a project that is known. -/
theorem refused_iff (hgraph : r.getByName? q.project = some g)
    (hwords : q.navigations = target :: rest) (kind : ErrorKind) :
    Refused r q kind ↔ isKeyword target = false ∧
      (g.resolve? target = none ∧ kind = .classNotFound ∨
        ∃ id sub name more, g.resolve? target = some id ∧ q.checks = [] ∧
          rest = sub :: name :: more ∧ Text.toLower sub = "method" ∧
          g.findMethod? id name = none ∧ kind = .methodNotFound) := by
  constructor
  · intro hrefused
    cases hrefused with
    | unknownProject hnames =>
      rw [(getByName?_eq_none_iff r _).2 hnames] at hgraph
      cases hgraph
    | unknownClass hgraph' hwords' hkeyword hclass =>
      rw [hgraph] at hgraph'
      rw [hwords] at hwords'
      cases hgraph'
      cases hwords'
      exact ⟨hkeyword, Or.inl ⟨hclass, rfl⟩⟩
    | unknownMethod hgraph' hwords' hkeyword hclass hchecks hsub hmethods =>
      rw [hgraph] at hgraph'
      rw [hwords] at hwords'
      cases hgraph'
      cases hwords'
      exact ⟨hkeyword, Or.inr ⟨_, _, _, _, hclass, hchecks, rfl, hsub,
        (findMethod?_eq_none_iff g _ _).2 hmethods, rfl⟩⟩
  · rintro
      ⟨hkeyword, ⟨hclass, rfl⟩ | ⟨id, sub, name, more, hclass, hchecks, rfl, hsub, hmethod, rfl⟩⟩
    · exact .unknownClass hgraph hwords hkeyword hclass
    · exact .unknownMethod hgraph hwords hkeyword hclass hchecks hsub
        ((findMethod?_eq_none_iff g _ _).1 hmethod)

/-- A list of parts of a whole project is never refused. -/
theorem settles_onGraph_of_keyword (hgraph : r.getByName? q.project = some g)
    (hwords : q.navigations = target :: rest) (hkeyword : isKeyword target = true) :
    Settles (q.onGraph g) (Refused r q) := by
  have hnone : ∀ kind, ¬Refused r q kind := by
    simp [refused_iff hgraph hwords, hkeyword]
  have hlist : Text.toLower target ∈ keywords := by
    simpa [isKeyword] using hkeyword
  simp only [keywords, List.mem_cons, List.not_mem_nil, or_false] at hlist
  rcases hlist with hword | hword | hword
  all_goals
    simp only [onGraph, hwords, hword, String.reduceEq, if_true, if_false]
    exact settles_of hnone

/-- What navigates from a class is refused for want of the class or of the method. -/
theorem settles_navigateClass (hgraph : r.getByName? q.project = some g)
    (hwords : q.navigations = target :: rest) (hrule : NavigationRule (target :: rest))
    (hkeyword : isKeyword target = false) :
    Settles (q.navigateClass g target rest) (Refused r q) := by
  have hrefused := refused_iff hgraph hwords
  unfold navigateClass
  cases hclass : g.resolve? target with
  | none => exact settles_reported (by simp [hrefused, hkeyword, hclass])
  | some id =>
    cases hcheck : q.checks with
    | cons word words =>
      simp only [checkWord?, hcheck, List.head?_cons]
      exact settles_of (by simp [hrefused, hclass, hcheck])
    | nil =>
      obtain ⟨view, hview, hmethod⟩ := exists_classView hrule hkeyword
      simp only [checkWord?, hcheck, List.head?_nil, hview]
      refine (settles_viewClass q g id view).congr ?_
      intro kind
      rw [hrefused]
      constructor
      · rintro ⟨-, ⟨hnone, -⟩ | ⟨_, sub, name, more, hsome, -, rfl, hsub, hlacks, rfl⟩⟩
        · simp [hclass] at hnone
        · obtain rfl := Option.some.inj (hclass.symm.trans hsome)
          exact ⟨rfl, name, (hmethod name).2 ⟨sub, more, rfl, hsub⟩, hlacks⟩
      · rintro ⟨rfl, name, hasked, hlacks⟩
        obtain ⟨sub, more, rfl, hsub⟩ := (hmethod name).1 hasked
        exact ⟨hkeyword, Or.inr ⟨id, sub, name, more, hclass, hcheck, rfl, hsub, hlacks, rfl⟩⟩

theorem settles_onGraph (hgraph : r.getByName? q.project = some g)
    (hwords : q.navigations = target :: rest) (hrule : NavigationRule (target :: rest)) :
    Settles (q.onGraph g) (Refused r q) := by
  cases hkeyword : isKeyword target with
  | true => exact settles_onGraph_of_keyword hgraph hwords hkeyword
  | false =>
    have hbare : Text.toLower target ≠ "endpoints" ∧ Text.toLower target ≠ "classes" ∧
        Text.toLower target ≠ "entrypoints" := by
      simpa [isKeyword, keywords] using hkeyword
    have hnavigates : q.onGraph g = q.navigateClass g target rest := by
      simp [onGraph, hwords, hbare]
    rw [hnavigates]
    exact settles_navigateClass hgraph hwords hrule hkeyword

/-- A registry settles every query that was read. -/
theorem settles_answer {s : String} (h : parse s = .ok q) (r : Registry) :
    Settles (q.answer r) (Refused r q) := by
  obtain ⟨target, rest, hwords, hrule⟩ := navigationRule_of_parse h
  unfold answer
  cases hgraph : r.getByName? q.project with
  | some g => exact settles_onGraph hgraph hwords hrule
  | none =>
    refine settles_reported fun kind => ⟨fun hrefused => ?_, ?_⟩
    · cases hrefused with
      | unknownProject => rfl
      | unknownClass hgraph' => simp [hgraph] at hgraph'
      | unknownMethod hgraph' => simp [hgraph] at hgraph'
    · rintro rfl
      exact .unknownProject ((getByName?_eq_none_iff r _).1 hgraph)

end

end Query

namespace Registry

/-- The reasons for which a registry refuses a text: it is no query, or it is one that the
registry refuses. -/
inductive Refused (r : Registry) (text : Option String) : ErrorKind → Prop
  | unread {fault : Query.Fault} (h : Query.parse? text = .error fault) :
      Refused r text .invalidQuery
  | unanswered {q : Query} {kind : ErrorKind} (h : Query.parse? text = .ok q)
      (hrefused : Query.Refused r q kind) : Refused r text kind

theorem parse_of_parse? {text : Option String} {q : Query} (h : Query.parse? text = .ok q) :
    ∃ s, Query.parse s = .ok q := by
  cases text with
  | none => cases h
  | some s => exact ⟨s, h⟩

/-- A query that was read gets a result. -/
theorem exists_executeQuery (r : Registry) {s : String} {q : Query} (h : Query.parse s = .ok q) :
    ∃ result, r.executeQuery q = .ok result := by
  unfold executeQuery
  rcases Query.settles_answer h r with ⟨_, _, _, hanswer, -⟩ | ⟨_, _, hanswer, -⟩
  · exact ⟨_, by rw [hanswer]; rfl⟩
  · exact ⟨_, by rw [hanswer]; rfl⟩

/-- Every text gets a result, which counts its items. It is an error exactly if there is a reason
to refuse the text, of the kind of this reason and without items. -/
theorem execute_settles (r : Registry) (text : Option String) :
    ∃ result, r.execute text = .ok result ∧ result.count = result.items.length ∧
      (∀ kind, result.error.map (·.1) = some kind ↔ r.Refused text kind) ∧
      (result.error ≠ none → result.items = []) := by
  unfold execute
  cases hread : Query.parse? text with
  | error fault =>
    refine ⟨_, rfl, rfl, fun kind => ?_, fun _ => rfl⟩
    constructor
    · intro h
      cases h
      exact .unread hread
    · intro h
      cases h with
      | unread => rfl
      | unanswered h => simp [hread] at h
  | ok q =>
    have hrefused (kind : ErrorKind) : r.Refused text kind ↔ Query.Refused r q kind := by
      constructor
      · intro h
        cases h with
        | unread h => simp [hread] at h
        | unanswered h hrefused =>
          rw [hread] at h
          cases h
          exact hrefused
      · exact .unanswered hread
    obtain ⟨s, hs⟩ := parse_of_parse? hread
    simp only [hrefused, executeQuery]
    rcases Query.settles_answer hs r with ⟨type, project, items, hanswer, hnone⟩ |
      ⟨kind, message, hanswer, honly⟩
    · refine ⟨_, by rw [hanswer]; rfl, rfl, ?_, ?_⟩
      · simp [hnone, QueryResult.of]
      · simp [QueryResult.of]
    · refine ⟨_, by rw [hanswer]; rfl, rfl, ?_, fun _ => rfl⟩
      intro k
      simp [honly, QueryResult.failure, eq_comm]

end Registry

/-! ## Modifiers in any order -/

namespace Query

/-- Queries with the same navigations and the same first check, which include the same details
when case is ignored. -/
structure AsksAlike (p q : Query) : Prop where
  project : q.project = p.project
  navigations : q.navigations = p.navigations
  includes : ∀ word, word ∈ q.includes.map Text.toLower ↔ word ∈ p.includes.map Text.toLower
  checkWord? : q.checkWord? = p.checkWord?

theorem hasInclude_eq (q : Query) (word : String) :
    q.hasInclude word = decide (Text.toLower word ∈ q.includes.map Text.toLower) := by
  rw [Bool.eq_iff_iff]
  simp [hasInclude, Text.sameIgnoringCase]

namespace AsksAlike

variable {p q : Query}

theorem hasInclude (h : AsksAlike p q) (word : String) : q.hasInclude word = p.hasInclude word := by
  simp only [hasInclude_eq, h.includes]

theorem viewClass (h : AsksAlike p q) (g : Graph) (id : String) (view : ClassView) :
    q.viewClass g id view = p.viewClass g id view := by
  cases view <;> simp only [Query.viewClass, h.project, h.hasInclude]

theorem navigateClass (h : AsksAlike p q) (g : Graph) (target : String) (rest : List String) :
    q.navigateClass g target rest = p.navigateClass g target rest := by
  simp only [Query.navigateClass, h.project, h.checkWord?, h.viewClass]

/-- Queries that ask alike are answered alike on every graph. -/
theorem onGraph (h : AsksAlike p q) (g : Graph) : q.onGraph g = p.onGraph g := by
  simp only [Query.onGraph, h.navigations, h.project, h.hasInclude, h.navigateClass]

theorem answer (h : AsksAlike p q) (r : Registry) : q.answer r = p.answer r := by
  simp only [Query.answer, h.project, h.onGraph]

theorem executeQuery (h : AsksAlike p q) (r : Registry) : r.executeQuery q = r.executeQuery p := by
  simp only [Registry.executeQuery, h.project, h.answer]

end AsksAlike

end Query

namespace Registry

/-- Texts that are read as queries that ask alike get the same result from every registry. -/
theorem execute_of_asksAlike (r : Registry) {s t : String} {p q : Query}
    (hs : Query.parse s = .ok p) (ht : Query.parse t = .ok q) (h : p.AsksAlike q) :
    ∃ result, r.execute (some s) = .ok result ∧ r.execute (some t) = .ok result := by
  obtain ⟨result, hresult⟩ := r.exists_executeQuery hs
  have hfirst : r.execute (some s) = r.executeQuery p := by
    simp [execute, Query.parse?, hs]
  have hsecond : r.execute (some t) = r.executeQuery q := by
    simp [execute, Query.parse?, ht]
  exact ⟨result, hfirst.trans hresult, by rw [hsecond, h.executeQuery, hresult]⟩

/-- Rules are asked for before the list of methods, after it, and twice. -/
theorem execute_of_asksAlike_of_shop :
    let r := empty.put "p1" "Shop" (Graph.empty.addNode "app.Cart" "Cart.java")
    ∃ result, r.execute (some "shop:Cart:+logic:methods:+LOGIC") = .ok result ∧
      r.execute (some " shop : Cart : methods :: + Logic ") = .ok result := by
  intro r
  have hs : Query.parse "shop:Cart:+logic:methods:+LOGIC" =
      .ok ⟨"shop:Cart:+logic:methods:+LOGIC", "shop", [⟨.navigate, "Cart"⟩, ⟨.include, "logic"⟩,
        ⟨.navigate, "methods"⟩, ⟨.include, "LOGIC"⟩]⟩ := by rfl
  have ht : Query.parse " shop : Cart : methods :: + Logic " =
      .ok ⟨"shop : Cart : methods :: + Logic", "shop", [⟨.navigate, "Cart"⟩,
        ⟨.navigate, "methods"⟩, ⟨.include, "Logic"⟩]⟩ := by rfl
  have hlogic : Text.toLower "logic" = "logic" ∧ Text.toLower "LOGIC" = "logic" ∧
      Text.toLower "Logic" = "logic" := by decide +kernel
  refine r.execute_of_asksAlike hs ht ⟨rfl, rfl, ?_, rfl⟩
  simp [Query.includes, Query.wordsOf, hlogic]

end Registry

end CodeAtlas
