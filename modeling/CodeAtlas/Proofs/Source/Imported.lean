import CodeAtlas.Ignore.Patterns
import CodeAtlas.Proofs.Source.Given

/-!
# Modules that a script module imports

The imports of a module are kept as the names that they bind. So a module that is named where no
name is kept is lost: by an import for side effects, by empty braces, and by a variable that is
taken apart. This file proves that every other import below named nodes is found, wherever it
stands, and which dependencies a module has for that.
-/

namespace CodeAtlas

/-! ## Nodes that are visited -/

namespace SyntaxTree

/-- Whether a node lies in a tree, named itself and below named nodes only. -/
inductive Reaches : SyntaxTree → SyntaxTree → Prop
  | here {t : SyntaxTree} (h : t.named = true) : Reaches t t
  | deeper {t c n : SyntaxTree} (h : t.named = true) (hc : c ∈ t.children) (hn : Reaches c n) :
    Reaches t n

theorem reaches_iff {t n : SyntaxTree} :
    t.Reaches n ↔ t.named = true ∧ (n = t ∨ ∃ c ∈ t.children, c.Reaches n) := by
  constructor
  · rintro (h | ⟨h, hc, hn⟩)
    exacts [⟨h, .inl rfl⟩, ⟨h, .inr ⟨_, hc, hn⟩⟩]
  · rintro ⟨h, rfl | ⟨c, hc, hn⟩⟩
    exacts [.here h, .deeper h hc hn]

end SyntaxTree

namespace NodeVisit

theorem exists_mem_below (P : SyntaxTree → Prop) (v : NodeVisit) :
    (∃ u ∈ v.below, P u.node) ↔ ∃ c ∈ v.node.children, P c := by
  have hmap : v.below.map (·.node) = v.node.children := map_node_ofSiblings v.node [] _
  rw [← hmap]
  simp

/-- The stack holds what is still to be reached. -/
theorem exists_mem_walk (stack : List NodeVisit) (n : SyntaxTree) :
    (∃ v ∈ walk stack, v.node = n) ↔ ∃ u ∈ stack, u.node.Reaches n := by
  induction stack using walk.induct with
  | case1 => simp [walk]
  | case2 v rest hnamed ih =>
    have hstack : (∃ u ∈ v.below ++ rest, u.node.Reaches n) ↔
        (∃ c ∈ v.node.children, c.Reaches n) ∨ ∃ u ∈ rest, u.node.Reaches n := by
      simp only [List.mem_append, or_and_right, exists_or]
      exact or_congr_left (exists_mem_below (·.Reaches n) v)
    rw [walk, if_pos hnamed]
    simp only [List.mem_cons, exists_eq_or_imp]
    rw [ih, hstack, SyntaxTree.reaches_iff (t := v.node), and_iff_right hnamed, or_assoc, eq_comm]
  | case3 v rest hanonymous ih =>
    rw [walk, if_neg hanonymous, ih]
    simp only [List.mem_cons, exists_eq_or_imp]
    exact (or_iff_right fun h => hanonymous (SyntaxTree.reaches_iff.1 h).1).symm

end NodeVisit

/-! ## What the nodes name -/

namespace SyntaxTree

/-- The string of an import statement that names the module: its own, or that of the clause by which
it requires the module. -/
def moduleString? (t : SyntaxTree) : Option SyntaxTree :=
  (t.child? "source").or
    ((t.children.find? (·.type == "import_require_clause")).bind (·.child? "source"))

/-- The first argument of a call. Comments are none. -/
def firstArgument? (call : SyntaxTree) : Option SyntaxTree :=
  (call.child? "arguments").bind fun args => args.namedChildren.find? (·.type != "comment")

/-- Whether a part of an import clause binds a name. -/
def BindsName (part : SyntaxTree) : Prop :=
  part.type = "identifier" ∨
    (part.type = "namespace_import" ∧ ∃ c ∈ part.children, c.type = "identifier") ∨
    (part.type = "named_imports" ∧ ∃ c ∈ part.namedChildren, c.type = "import_specifier")

end SyntaxTree

namespace TypeScript

open SyntaxTree

/-- Whether a node names a module: an import statement, whatever it binds, or a declarator of
variables whose value is a call that requires it. -/
inductive Names (f : SourceFile) (n : SyntaxTree) (source : String) : Prop
  | statement {s : SyntaxTree} (htype : n.type = "import_statement")
    (hstring : n.moduleString? = some s) (hsource : stringValue f s = source)
  | declarator {value s : SyntaxTree} (htype : n.type = "variable_declarator")
    (hvalue : n.child? "value" = some value) (hcall : value.type = "call_expression")
    (hrequire : f.fieldText value "function" = "require")
    (hstring : value.firstArgument? = some s) (hstringType : s.type = "string")
    (hsource : stringValue f s = source)

/-- Whether a node binds a name to the module that it names, in a way that is seen: by a clause of
an import statement that names its module itself, or by an identifier as the name of a variable,
with no comment in front of the argument. -/
inductive Binds (n : SyntaxTree) : Prop
  | statement {clause part : SyntaxTree} (htype : n.type = "import_statement")
    (hsource : (n.child? "source").isSome = true) (hclause : clause ∈ n.children)
    (hclauseType : clause.type = "import_clause") (hpart : part ∈ clause.children)
    (hbinds : part.BindsName)
  | declarator {name value args : SyntaxTree} (htype : n.type = "variable_declarator")
    (hname : n.child? "name" = some name) (hidentifier : name.type = "identifier")
    (hvalue : n.child? "value" = some value) (hargs : value.child? "arguments" = some args)
    (hcomment : ∀ first ∈ args.namedChildren.head?, first.type ≠ "comment")

/-! ## What the nodes give -/

/-- The import of the module that a declared variable requires under its name. -/
def required? (f : SourceFile) (t : SyntaxTree) : Option ModuleImport :=
  match t.child? "name", t.child? "value" with
  | some name, some value =>
    if name.type = "identifier" ∧ value.type = "call_expression" then
      ((value.child? "arguments").bind fun args => args.namedChildren.head?).bind fun first =>
        if f.fieldText value "function" = "require" ∧ first.type = "string" then
          some ⟨"default", f.text name, stringValue f first⟩
        else none
    else none
  | _, _ => none

/-- The imports that a node gives. -/
def importsAt (f : SourceFile) (t : SyntaxTree) : List ModuleImport :=
  if t.type = "import_statement" then importsOf f t
  else if t.type = "variable_declarator" then (required? f t).toList
  else []

/-- What the decorators of a class say is about the module's kind and entry points only. -/
theorem foldl_applyClassDecorator_keeps (f : SourceFile) (ds : List SyntaxTree)
    (a : ModuleAnalysis) :
    (ds.foldl (applyClassDecorator f) a).methods = a.methods ∧
      (ds.foldl (applyClassDecorator f) a).imports = a.imports := by
  refine List.foldlRecOn ds _
    (motive := fun b : ModuleAnalysis => b.methods = a.methods ∧ b.imports = a.imports)
    ⟨rfl, rfl⟩ fun b hb d _ => ?_
  unfold applyClassDecorator
  split
  case h_2 => split <;> exact hb
  all_goals exact hb

theorem imports_addVariable (f : SourceFile) (s : Setting) (a : ModuleAnalysis)
    (t : SyntaxTree) :
    (addVariable f s a t).imports = a.imports ++ (required? f t).toList := by
  have hnone : a.imports = a.imports ++ (none : Option ModuleImport).toList :=
    (List.append_nil _).symm
  unfold addVariable required?
  cases t.child? "name" with
  | none => exact hnone
  | some name =>
    cases t.child? "value" with
    | none => exact hnone
    | some value =>
      dsimp only
      by_cases hname : name.type = "identifier"
      · rw [if_neg (not_not_intro hname)]
        by_cases hcall : value.type = "call_expression"
        · have hfunction : value.isOneOf functionValues = false := isOneOf_of_type hcall _
          rw [hfunction, if_neg Bool.false_ne_true, if_neg (not_not_intro hcall),
            if_pos ⟨hname, hcall⟩]
          cases (value.child? "arguments").bind fun args => args.namedChildren.head? with
          | none => exact hnone
          | some first =>
            dsimp only [Option.bind_some]
            by_cases hrequire : f.fieldText value "function" = "require" ∧ first.type = "string"
            · simp [hrequire]
            · rw [if_neg (by simpa using hrequire), if_neg hrequire]
              split <;> exact hnone
        · have hother : ¬(name.type = "identifier" ∧ value.type = "call_expression") :=
            fun h => hcall h.2
          rw [if_neg hother, if_pos hcall]
          split <;> exact hnone
      · rw [if_pos hname, if_neg fun h => hname h.1]
        exact hnone

/-- A visit adds the imports that its node gives, and nothing else does. -/
theorem imports_visit (f : SourceFile) (s : Setting) (a : ModuleAnalysis) (v : NodeVisit) :
    (visit f s a v).imports = a.imports ++ importsAt f v.node := by
  unfold visit importsAt
  dsimp only
  by_cases himport : v.node.type = "import_statement"
  · rw [if_pos himport, if_pos himport]
  rw [if_neg himport, if_neg himport]
  by_cases hdeclarator : v.node.type = "variable_declarator"
  · rw [if_pos hdeclarator, if_pos hdeclarator, ← imports_addVariable f s]
    unfold isOneOf
    rw [hdeclarator]
    rfl
  rw [if_neg hdeclarator, if_neg hdeclarator, List.append_nil]
  split
  · exact (foldl_applyClassDecorator_keeps f _ a).2
  split
  · cases memberMethod? f v <;> rfl
  split
  · split <;> rfl
  split
  · cases propertyMethod? f v.node <;> rfl
  split <;> rfl

/-- Every part that binds a name gives an import from the statement's module. -/
theorem exists_mem_clauseImports {f : SourceFile} {module source : String} {part : SyntaxTree} :
    (∃ i ∈ clauseImports f module part, i.source = source) ↔ part.BindsName ∧ module = source := by
  unfold clauseImports BindsName
  by_cases hidentifier : part.type = "identifier"
  · simp [hidentifier]
  by_cases hnamespace : part.type = "namespace_import"
  · simp [hnamespace]
  by_cases hnamed : part.type = "named_imports"
  · simp [hnamed, specifierImport]
  simp [hidentifier, hnamespace, hnamed]

theorem exists_mem_importsOf {f : SourceFile} {t : SyntaxTree} {source : String} :
    (∃ i ∈ importsOf f t, i.source = source) ↔ ∃ s, t.child? "source" = some s ∧
      stringValue f s = source ∧ ∃ clause ∈ t.children, clause.type = "import_clause" ∧
        ∃ part ∈ clause.children, part.BindsName := by
  unfold importsOf
  cases t.child? "source" with
  | none => simp
  | some s =>
    simp only [List.mem_flatMap, List.mem_filter, beq_iff_eq, Option.some.injEq, exists_eq_left']
    constructor
    · rintro ⟨i, ⟨part, ⟨clause, ⟨hclause, htype⟩, hpart⟩, hi⟩, hsource⟩
      obtain ⟨hbinds, hmodule⟩ := exists_mem_clauseImports.1 ⟨i, hi, hsource⟩
      exact ⟨hmodule, clause, hclause, htype, part, hpart, hbinds⟩
    · rintro ⟨hmodule, clause, hclause, htype, part, hpart, hbinds⟩
      obtain ⟨i, hi, hsource⟩ := exists_mem_clauseImports.2 ⟨hbinds, hmodule⟩
      exact ⟨i, ⟨part, ⟨clause, ⟨hclause, htype⟩, hpart⟩, hi⟩, hsource⟩

theorem exists_mem_required? {f : SourceFile} {t : SyntaxTree} {source : String} :
    (∃ i ∈ required? f t, i.source = source) ↔
      ∃ name value args first, t.child? "name" = some name ∧ name.type = "identifier" ∧
        t.child? "value" = some value ∧ value.type = "call_expression" ∧
        f.fieldText value "function" = "require" ∧ value.child? "arguments" = some args ∧
        args.namedChildren.head? = some first ∧ first.type = "string" ∧
        stringValue f first = source := by
  unfold required?
  constructor
  · rintro ⟨i, hi, rfl⟩
    split at hi
    · next name value hname hvalue =>
      obtain ⟨⟨hidentifier, hcall⟩, hi⟩ := Option.ite_none_right_eq_some.1 hi
      obtain ⟨first, hfirst, hi⟩ := Option.bind_eq_some_iff.1 hi
      obtain ⟨args, hargs, hfirst⟩ := Option.bind_eq_some_iff.1 hfirst
      obtain ⟨⟨hrequire, hstring⟩, hi⟩ := Option.ite_none_right_eq_some.1 hi
      obtain rfl := Option.some.inj hi
      exact ⟨name, value, args, first, hname, hidentifier, hvalue, hcall, hrequire, hargs, hfirst,
        hstring, rfl⟩
    · cases hi
  · rintro ⟨name, value, args, first, hname, hidentifier, hvalue, hcall, hrequire, hargs, hfirst,
      hstring, rfl⟩
    refine ⟨⟨"default", f.text name, stringValue f first⟩, ?_, rfl⟩
    simp [hname, hidentifier, hvalue, hcall, hrequire, hargs, hfirst, hstring]

/-- Of a call whose arguments no comment leads the first argument is the first named one. -/
theorem firstArgument?_eq_some {call args s : SyntaxTree}
    (hargs : call.child? "arguments" = some args)
    (hcomment : ∀ first ∈ args.namedChildren.head?, first.type ≠ "comment") :
    call.firstArgument? = some s ↔ args.namedChildren.head? = some s := by
  unfold firstArgument?
  rw [hargs, Option.bind_some]
  cases hnamed : args.namedChildren with
  | nil => simp
  | cons first rest =>
    have hfirst : (first.type != "comment") = true :=
      bne_iff_ne.2 (hcomment first (by rw [hnamed]; rfl))
    simp only [List.find?_cons, hfirst, List.head?_cons]

/-- A statement gives an import from a module exactly if it names the module and is seen to bind a
name. -/
theorem exists_mem_importsOf_iff {f : SourceFile} {n : SyntaxTree} {source : String}
    (hstatement : n.type = "import_statement") :
    (∃ i ∈ importsOf f n, i.source = source) ↔ Names f n source ∧ Binds n := by
  rw [exists_mem_importsOf]
  constructor
  · rintro ⟨s, hs, hsource, clause, hclause, hclauseType, part, hpart, hbinds⟩
    refine ⟨.statement hstatement ?_ hsource,
      .statement hstatement (by rw [hs]; rfl) hclause hclauseType hpart hbinds⟩
    rw [moduleString?, hs, Option.some_or]
  · rintro ⟨hnames, hbinds⟩
    cases hbinds with
    | declarator htype => exact absurd (hstatement.symm.trans htype) (by decide)
    | statement _ hown hclause hclauseType hpart hbinds =>
      obtain ⟨s, hs⟩ := Option.isSome_iff_exists.1 hown
      cases hnames with
      | declarator htype => exact absurd (hstatement.symm.trans htype) (by decide)
      | statement _ hstring hsource =>
        rw [moduleString?, hs, Option.some_or] at hstring
        obtain rfl := Option.some.inj hstring
        exact ⟨_, hs, hsource, _, hclause, hclauseType, _, hpart, hbinds⟩

/-- So does a declarator. -/
theorem exists_mem_required?_iff {f : SourceFile} {n : SyntaxTree} {source : String}
    (hdeclarator : n.type = "variable_declarator") :
    (∃ i ∈ required? f n, i.source = source) ↔ Names f n source ∧ Binds n := by
  rw [exists_mem_required?]
  constructor
  · rintro ⟨name, value, args, first, hname, hidentifier, hvalue, hcall, hrequire, hargs, hfirst,
      hstring, hsource⟩
    have hcomment : ∀ c ∈ args.namedChildren.head?, c.type ≠ "comment" := by
      intro c hc
      obtain rfl := Option.some.inj (hfirst.symm.trans hc)
      rw [hstring]
      decide
    exact ⟨.declarator hdeclarator hvalue hcall hrequire
        ((firstArgument?_eq_some hargs hcomment).2 hfirst) hstring hsource,
      .declarator hdeclarator hname hidentifier hvalue hargs hcomment⟩
  · rintro ⟨hnames, hbinds⟩
    cases hnames with
    | statement htype => exact absurd (hdeclarator.symm.trans htype) (by decide)
    | declarator _ hvalue hcall hrequire hstring hstringType hsource =>
      cases hbinds with
      | statement htype => exact absurd (hdeclarator.symm.trans htype) (by decide)
      | declarator _ hname hidentifier hvalue' hargs hcomment =>
        obtain rfl := Option.some.inj (hvalue.symm.trans hvalue')
        exact ⟨_, _, _, _, hname, hidentifier, hvalue, hcall, hrequire, hargs,
          (firstArgument?_eq_some hargs hcomment).1 hstring, hstringType, hsource⟩

/-- A node gives an import from a module exactly if it names the module and is seen to bind a
name. -/
theorem exists_mem_importsAt {f : SourceFile} {n : SyntaxTree} {source : String} :
    (∃ i ∈ importsAt f n, i.source = source) ↔ Names f n source ∧ Binds n := by
  unfold importsAt
  by_cases hstatement : n.type = "import_statement"
  · rw [if_pos hstatement]
    exact exists_mem_importsOf_iff hstatement
  rw [if_neg hstatement]
  by_cases hdeclarator : n.type = "variable_declarator"
  · rw [if_pos hdeclarator]
    simp only [Option.mem_toList, ← Option.mem_def]
    exact exists_mem_required?_iff hdeclarator
  · rw [if_neg hdeclarator]
    constructor
    · rintro ⟨i, hi, -⟩
      cases hi
    · rintro ⟨hnames, -⟩
      cases hnames with
      | statement htype => exact absurd htype hstatement
      | declarator htype => exact absurd htype hdeclarator

/-- The imports of a module are those that its nodes give, one after the other. -/
theorem imports_analyze (f : SourceFile) (path framework : String) :
    (analyze f path framework).imports =
      (NodeVisit.walk [⟨f.tree, none, []⟩]).flatMap fun v => importsAt f v.node := by
  rw [List.flatMap_eq_foldl]
  exact (List.foldl_hom ModuleAnalysis.imports fun a v => (imports_visit f _ a v).symm).symm

/-- A module is imported exactly if a node that is reached names it and is seen to bind a name. -/
theorem exists_mem_imports {f : SourceFile} {path framework source : String} :
    (∃ i ∈ (analyze f path framework).imports, i.source = source) ↔
      ∃ n, f.tree.Reaches n ∧ Names f n source ∧ Binds n := by
  rw [imports_analyze]
  simp only [List.mem_flatMap, ← exists_mem_importsAt]
  constructor
  · rintro ⟨i, ⟨v, hv, hi⟩, hsource⟩
    obtain ⟨u, hu, hreaches⟩ := (NodeVisit.exists_mem_walk _ v.node).1 ⟨v, hv, rfl⟩
    obtain rfl := List.mem_singleton.1 hu
    exact ⟨v.node, hreaches, i, hi, hsource⟩
  · rintro ⟨n, hreaches, i, hi, hsource⟩
    obtain ⟨v, hv, rfl⟩ := (NodeVisit.exists_mem_walk [⟨f.tree, none, []⟩] n).2
      ⟨_, List.mem_singleton_self _, hreaches⟩
    exact ⟨i, ⟨v, hv, hi⟩, hsource⟩

end TypeScript

/-! ## Dependencies of a module -/

namespace Examiner

open Fallible TypeScript

theorem mem_moduleDependencies {t : FileTree} {file root : Path} {known : List String}
    {a : ModuleAnalysis} {u : String} :
    u ∈ moduleDependencies t file root known a ↔
      ∃ source, (∃ i ∈ a.imports, i.source = source) ∧
        resolveImport? t file root known source = some u := by
  unfold moduleDependencies firstOccurrences
  rw [mem_foldl_appendNew, or_iff_right List.not_mem_nil, List.mem_filterMap]
  constructor
  · rintro ⟨i, hi, hu⟩
    exact ⟨i.source, ⟨i, hi, rfl⟩, hu⟩
  · rintro ⟨source, ⟨i, hi, rfl⟩, hu⟩
    exact ⟨i, hi, hu⟩

theorem run_dependencies_typescript {platform : Platform} {t : FileTree} {root file : Path}
    {src : SourceFile}
    {path framework : String} (hsrc : SourceFile.read t file = .ok src)
    (hsetting : scriptSetting platform.limits t file = .ok (path, framework)) (known : List String)
    (st : ExaminerState) :
    (dependencies ⟨.typescript, platform, []⟩ (.ofFiles t) file root known).run st =
      (.ok (moduleDependencies t file root known (analyze src path framework)), st) := by
  have hgiven : dependenciesIn ⟨.typescript, platform, []⟩ t root known file =
      .ok (moduleDependencies t file root known (analyze src path framework)) := by
    unfold dependenciesIn analyzeModule
    dsimp only
    rw [hsrc, hsetting]
    rfl
  rw [dependencies_eq rfl, hgiven]
  rfl

theorem exists_setting_of_run {platform : Platform} {t : FileTree} {root file : Path}
    {known deps : List String}
    {st : ExaminerState}
    (h : (dependencies ⟨.typescript, platform, []⟩ (.ofFiles t) file root known).run st =
      (.ok deps, st)) :
    ∃ path framework, scriptSetting platform.limits t file = .ok (path, framework) := by
  rw [dependencies_eq rfl] at h
  have hgiven : dependenciesIn ⟨.typescript, platform, []⟩ t root known file = .ok deps :=
    (Prod.mk.inj h).1
  obtain ⟨a, ha, -⟩ := Outcome.bind_eq_ok.1 hgiven
  obtain ⟨src, -, ha⟩ := Outcome.bind_eq_ok.1 ha
  obtain ⟨⟨path, framework⟩, hsetting, -⟩ := Outcome.bind_eq_ok.1 ha
  exact ⟨path, framework, hsetting⟩

/-- Whether a node that is reached in a module names a known unit. -/
def NamesUnit (t : FileTree) (file root : Path) (known : List String) (src : SourceFile)
    (n : SyntaxTree) (u : String) : Prop :=
  src.tree.Reaches n ∧
    ∃ source, Names src n source ∧ resolveImport? t file root known source = some u

/-- A script module has dependencies, perhaps none, exactly if it can be opened and the manifest of
its project is sound. They are the known units that are named by import statements and by variables
that require a module, wherever these stand below named nodes, but only where a name is seen to be
bound. So the dependencies are all units that are named exactly if each unit that is named where no
name is bound is also named elsewhere, where one is. -/
theorem dependencies_of_imports (platform : Platform) (t : FileTree) (root file : Path)
    (known : List String)
    (st : ExaminerState) :
    let answer := (dependencies ⟨.typescript, platform, []⟩ (.ofFiles t) file root known).run st
    ((∃ deps, answer = (.ok deps, st)) ↔
      t.Opens file ∧ t.TellsFramework platform.limits (scriptProject t file)) ∧
    ∀ src deps, SourceFile.read t file = .ok src → answer = (.ok deps, st) →
      (∀ u, u ∈ deps ↔ ∃ n, NamesUnit t file root known src n u ∧ Binds n) ∧
      ((∀ u, u ∈ deps ↔ ∃ n, NamesUnit t file root known src n u) ↔
        ∀ n u, NamesUnit t file root known src n u → ¬Binds n →
          ∃ other, NamesUnit t file root known src other u ∧ Binds other) := by
  intro answer
  constructor
  · change (∃ deps, (dependencies _ (.ofFiles t) file root known).run st = (.ok deps, st)) ↔ _
    rw [dependencies_eq rfl]
    refine (exists_run_ofOutcome _ st).trans ((exists_dependenciesIn_ok known).trans ?_)
    simp
  intro src deps hsrc hdeps
  have hexact (u : String) : u ∈ deps ↔ ∃ n, NamesUnit t file root known src n u ∧ Binds n := by
    obtain ⟨path, framework, hsetting⟩ := exists_setting_of_run hdeps
    obtain rfl : _ = deps := Except.ok.inj
      (Prod.mk.inj ((run_dependencies_typescript hsrc hsetting known st).symm.trans hdeps)).1
    rw [mem_moduleDependencies]
    simp only [exists_mem_imports]
    constructor
    · rintro ⟨source, ⟨n, hreaches, hnames, hbinds⟩, hu⟩
      exact ⟨n, ⟨hreaches, source, hnames, hu⟩, hbinds⟩
    · rintro ⟨n, ⟨hreaches, source, hnames, hu⟩, hbinds⟩
      exact ⟨source, ⟨n, hreaches, hnames, hbinds⟩, hu⟩
  refine ⟨hexact, ?_⟩
  simp only [hexact]
  constructor
  · intro hall n u hunit _
    exact (hall u).2 ⟨n, hunit⟩
  · intro hother u
    constructor
    · rintro ⟨n, hunit, -⟩
      exact ⟨n, hunit⟩
    · rintro ⟨n, hunit⟩
      by_cases hbinds : Binds n
      · exact ⟨n, hunit, hbinds⟩
      · exact hother n u hunit hbinds

/-- The module of a project of one module. -/
def onlyModule : Path := ⟨true, ["m.ts"]⟩

/-- A string of three characters. -/
def quotedAt (field : String) (start : Nat) : SyntaxTree :=
  .node "string" true field start (start + 5)
    [.node "'" false "" start (start + 1) [],
    .node "string_fragment" true "" (start + 1) (start + 4) [],
    .node "'" false "" (start + 4) (start + 5) []]

/-- The declaration of a constant whose value requires a module; the binding that is given ends
where the equals sign stands. -/
def requiringAt (start : Nat) (binding : SyntaxTree) : SyntaxTree :=
  let value := binding.stop + 1
  .node "lexical_declaration" true "" start (value + 15)
    [.node "const" false "kind" start (start + 5) [],
    .node "variable_declarator" true "" (start + 6) (value + 14)
      [binding, .node "=" false "" (value - 1) value [],
      .node "call_expression" true "value" value (value + 14)
        [.node "identifier" true "function" value (value + 7) [],
        .node "arguments" true "arguments" (value + 7) (value + 14)
          [.node "(" false "" (value + 7) (value + 8) [], quotedAt "" (value + 8),
          .node ")" false "" (value + 13) (value + 14) []]]],
    .node ";" false "" (value + 14) (value + 15) []]

/-- A module that binds names to what it imports. -/
def bindingModule : SourceFile where
  path := onlyModule
  content := "import x from './a';const y=require('./b');".toUTF8
  tree := .node "program" true "" 0 43
    [.node "import_statement" true "" 0 20
      [.node "import" false "" 0 6 [],
      .node "import_clause" true "" 7 8 [.node "identifier" true "" 7 8 []],
      .node "from" false "" 9 13 [], quotedAt "source" 14, .node ";" false "" 19 20 []],
    requiringAt 20 (.node "identifier" true "name" 26 27 [])]

/-- A module that imports as much without binding names where that is seen. -/
def bareModule : SourceFile where
  path := onlyModule
  content := ("import './a';import \x7b\x7d from './b';import c=require('./c');" ++
    "const \x7bd\x7d=require('./d');").toUTF8
  tree := .node "program" true "" 0 83
    [.node "import_statement" true "" 0 13
      [.node "import" false "" 0 6 [], quotedAt "source" 7, .node ";" false "" 12 13 []],
    .node "import_statement" true "" 13 34
      [.node "import" false "" 13 19 [],
      .node "import_clause" true "" 20 22
        [.node "named_imports" true "" 20 22
          [.node "\x7b" false "" 20 21 [], .node "\x7d" false "" 21 22 []]],
      .node "from" false "" 23 27 [], quotedAt "source" 28, .node ";" false "" 33 34 []],
    .node "import_statement" true "" 34 58
      [.node "import" false "" 34 40 [],
      .node "import_require_clause" true "" 41 57
        [.node "identifier" true "" 41 42 [], .node "=" false "" 42 43 [],
        .node "require" false "" 43 50 [], .node "(" false "" 50 51 [], quotedAt "source" 51,
        .node ")" false "" 56 57 []],
      .node ";" false "" 57 58 []],
    requiringAt 58 (.node "object_pattern" true "name" 64 67
      [.node "\x7b" false "" 64 65 [],
      .node "shorthand_property_identifier_pattern" true "" 65 66 [],
      .node "\x7d" false "" 66 67 []])]

/-- The project of one module. -/
def projectOf (src : SourceFile) : FileTree :=
  ⟨⟨[(["m.ts"], .file src.content (some src.tree))]⟩, []⟩

/-- Both modules that are bound to names are dependencies. -/
theorem dependencies_of_bindingModule :
    ∃ deps,
      (dependencies ⟨.typescript, .standard, []⟩ (.ofFiles (projectOf bindingModule)) onlyModule
        ⟨true, []⟩ ["a", "b"]).run ⟨.empty, none⟩ = (.ok deps, ⟨.empty, none⟩) ∧
      "a" ∈ deps ∧ "b" ∈ deps := by
  have hsrc : SourceFile.read (projectOf bindingModule) onlyModule = .ok bindingModule := by rfl
  have hsetting : scriptSetting Platform.standard.limits (projectOf bindingModule) onlyModule =
      .ok ("m.ts", "unknown") := by rfl
  have hrun :
      (dependencies ⟨.typescript, .standard, []⟩ (.ofFiles (projectOf bindingModule)) onlyModule
      ⟨true, []⟩ ["a", "b"]).run ⟨.empty, none⟩ = (.ok _, ⟨.empty, none⟩) :=
    run_dependencies_typescript hsrc hsetting _ _
  obtain ⟨-, hanswer⟩ := dependencies_of_imports .standard (projectOf bindingModule)
    ⟨true, []⟩ onlyModule
    ["a", "b"] ⟨.empty, none⟩
  obtain ⟨hexact, -⟩ := hanswer bindingModule _ hsrc hrun
  refine ⟨_, hrun, (hexact "a").2 ?_, (hexact "b").2 ?_⟩
  · exact ⟨_, ⟨.deeper rfl (.head _) (.here rfl), "./a",
        .statement rfl rfl (by decide +kernel), by decide +kernel⟩,
      .statement rfl rfl (.tail _ (.head _)) rfl (.head _) (.inl rfl)⟩
  · exact ⟨_, ⟨.deeper rfl (.tail _ (.head _)) (.deeper rfl (.tail _ (.head _)) (.here rfl)), "./b",
        .declarator rfl rfl rfl (by decide +kernel) rfl rfl (by decide +kernel),
        by decide +kernel⟩,
      .declarator rfl rfl rfl rfl rfl (by decide +kernel)⟩

/-- Four modules are named and none is a dependency: one is imported for its side effects, one with
empty braces, one by a clause that requires it, and one is taken apart. -/
theorem bare_imports_lost :
    (dependencies ⟨.typescript, .standard, []⟩ (.ofFiles (projectOf bareModule)) onlyModule
      ⟨true, []⟩
        ["a", "b", "c", "d"]).run ⟨.empty, none⟩ = (.ok [], ⟨.empty, none⟩) ∧
      ∀ u ∈ ["a", "b", "c", "d"], ∃ n,
        NamesUnit (projectOf bareModule) onlyModule ⟨true, []⟩ ["a", "b", "c", "d"] bareModule
          n u := by
  have hsrc : SourceFile.read (projectOf bareModule) onlyModule = .ok bareModule := by rfl
  have hsetting : scriptSetting Platform.standard.limits (projectOf bareModule) onlyModule =
      .ok ("m.ts", "unknown") := by
    rfl
  have hnone : moduleDependencies (projectOf bareModule) onlyModule ⟨true, []⟩ ["a", "b", "c", "d"]
      (analyze bareModule "m.ts" "unknown") = [] := by decide +kernel
  refine ⟨(run_dependencies_typescript hsrc hsetting _ _).trans (by rw [hnone]), ?_⟩
  simp only [List.forall_mem_cons, List.not_mem_nil, false_implies, implies_true, and_true]
  refine ⟨⟨_, .deeper rfl (.head _) (.here rfl), "./a", ?_, by decide +kernel⟩,
    ⟨_, .deeper rfl (.tail _ (.head _)) (.here rfl), "./b", ?_, by decide +kernel⟩,
    ⟨_, .deeper rfl (.tail _ (.tail _ (.head _))) (.here rfl), "./c", ?_, by decide +kernel⟩,
    ⟨_, .deeper rfl (.tail _ (.tail _ (.tail _ (.head _))))
      (.deeper rfl (.tail _ (.head _)) (.here rfl)), "./d", ?_, by decide +kernel⟩⟩
  · exact .statement rfl rfl (by decide +kernel)
  · exact .statement rfl rfl (by decide +kernel)
  · exact .statement rfl rfl (by decide +kernel)
  · exact .declarator rfl rfl rfl (by decide +kernel) rfl rfl (by decide +kernel)

end Examiner

end CodeAtlas
