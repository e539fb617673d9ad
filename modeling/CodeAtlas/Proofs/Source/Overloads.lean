import CodeAtlas.Ignore.Patterns
import CodeAtlas.Proofs.Links.Resolution
import CodeAtlas.Proofs.Source.Found
import CodeAtlas.Proofs.Source.References
import CodeAtlas.Proofs.Source.Specifiers

/-!
# Methods that share a name

The units that parameters are stand under the names of their methods. Where methods of a file share
a name, the targets of a later one take the place of those before. This file says, for every
language, which parameters are found under their method's name and which are lost to a later method.
-/

namespace CodeAtlas

open Fallible

/-- Whether a unit stands among the parameters of the methods of a name. -/
def MethodTargets.Lists (r : MethodTargets) (name t : String) : Prop :=
  ∃ targets, r.get? name = some targets ∧ t ∈ targets

theorem MethodTargets.get?_record (r : MethodTargets) (name other : String)
    (targets : List String) :
    (r.record name targets).get? other =
      if name = other ∧ targets ≠ [] then some targets else r.get? other := by
  unfold record
  cases targets with
  | nil => simp
  | cons t ts => simp [Dict.get?_insert, eq_comm]

/-- A method as its file declares it: its name and the types of its parameters as they are
written. -/
structure DeclaredMethod where
  name : String
  parameterTypes : List String
  deriving Repr, DecidableEq, Inhabited

/-- The methods that a file declares, in source order, and the known units that its written types
mean. To find one out may fail. -/
structure Signatures where
  methods : List DeclaredMethod
  meaning : String → Outcome (Option String)

namespace Signatures

/-- Whether a method has a parameter whose type means a unit. -/
def Takes (sig : Signatures) (m : DeclaredMethod) (t : String) : Prop :=
  ∃ written ∈ m.parameterTypes, sig.meaning written = .ok (some t)

/-- Whether it can be found out what the types of all parameters mean. -/
def Legible (sig : Signatures) : Prop :=
  ∀ m ∈ sig.methods, ∀ written ∈ m.parameterTypes, ∃ unit, sig.meaning written = .ok unit

/-- The units that a method's parameters are, in the order of the parameters. -/
def targets (sig : Signatures) (m : DeclaredMethod) : List String :=
  m.parameterTypes.filterMap fun written => (sig.meaning written).toOption.join

/-- The last method of a name with a parameter that is a unit. -/
def lastTaking? (sig : Signatures) (name : String) : Option DeclaredMethod :=
  (sig.methods.filter fun m => m.name = name ∧ sig.targets m ≠ []).getLast?

/-- The targets of the methods, recorded one method after the other. -/
def recorded (sig : Signatures) : Outcome MethodTargets :=
  sig.methods.foldlM (fun r m => do
    let units ← m.parameterTypes.mapM sig.meaning
    return r.record m.name (units.filterMap id)) .empty

variable {sig : Signatures}

theorem mem_targets {m : DeclaredMethod} {t : String} : t ∈ sig.targets m ↔ sig.Takes m t := by
  unfold targets Takes
  rw [List.mem_filterMap]
  refine exists_congr fun written => and_congr_right fun _ => ?_
  cases sig.meaning written with
  | error f => simp [Except.toOption]
  | ok unit => simp [Except.toOption]

theorem mapM_meaning {types : List String}
    (h : ∀ written ∈ types, ∃ unit, sig.meaning written = .ok unit) :
    (do return (← types.mapM sig.meaning).filterMap id) =
      (.ok (types.filterMap fun written => (sig.meaning written).toOption.join) :
        Outcome (List String)) := by
  induction types with
  | nil => rfl
  | cons written rest ih =>
    obtain ⟨⟨unit, hunit⟩, hrest⟩ := List.forall_mem_cons.1 h
    obtain ⟨units, hunits⟩ := Outcome.exists_mapM_ok.2 hrest
    have hih := ih hrest
    rw [hunits] at hih
    rw [List.mapM_cons, hunit, hunits, List.filterMap_cons, hunit, ← Except.ok.inj hih]
    cases unit <;> rfl

/-- Targets are recorded exactly if it can be found out what every type means. -/
theorem exists_recorded_ok : (∃ r, sig.recorded = .ok r) ↔ sig.Legible := by
  refine Outcome.exists_foldlM_ok (fun r m _ => ?_) _
  rw [Outcome.exists_bind_ok, ← Outcome.exists_mapM_ok]
  exact ⟨fun ⟨units, h, _⟩ => ⟨units, h⟩, fun ⟨units, h⟩ => ⟨units, h, _, rfl⟩⟩

theorem recorded_eq (h : sig.Legible) :
    sig.recorded =
      .ok (sig.methods.foldl (fun r m => r.record m.name (sig.targets m)) .empty) := by
  unfold recorded
  generalize (Dict.empty : MethodTargets) = r
  unfold Legible at h
  revert h
  induction sig.methods generalizing r with
  | nil => exact fun _ => rfl
  | cons m rest ih =>
    intro h
    obtain ⟨hm, hrest⟩ := List.forall_mem_cons.1 h
    obtain ⟨units, hunits⟩ := Outcome.exists_mapM_ok.2 hm
    have htargets := mapM_meaning hm
    rw [hunits] at htargets
    have hstep : units.filterMap id = sig.targets m := Except.ok.inj htargets
    rw [List.foldlM_cons, hunits, List.foldl_cons, ← hstep]
    exact ih _ hrest

/-- Under a name stand the targets of the last of its methods that has any. -/
theorem get?_recorded {r : MethodTargets} (h : sig.recorded = .ok r) (name : String) :
    r.get? name = (sig.lastTaking? name).map sig.targets := by
  rw [recorded_eq (exists_recorded_ok.1 ⟨r, h⟩)] at h
  obtain rfl := Except.ok.inj h
  unfold lastTaking?
  -- the last method decides unless it has another name or no targets
  induction sig.methods using List.reverseRecOn with
  | nil => rfl
  | append_singleton methods m ih =>
    rw [List.foldl_concat, MethodTargets.get?_record, List.filter_append]
    by_cases hm : m.name = name ∧ sig.targets m ≠ []
    · simp [hm]
    · rw [if_neg hm, ih, List.filter_cons_of_neg (by simpa using hm), List.filter_nil,
        List.append_nil]

theorem lists_recorded {r : MethodTargets} (h : sig.recorded = .ok r) {name t : String} :
    r.Lists name t ↔ ∃ last, sig.lastTaking? name = some last ∧ sig.Takes last t := by
  unfold MethodTargets.Lists
  simp only [get?_recorded h, Option.map_eq_some_iff, ← mem_targets]
  constructor
  · rintro ⟨targets, ⟨last, hlast, rfl⟩, ht⟩
    exact ⟨last, hlast, ht⟩
  · rintro ⟨last, hlast, ht⟩
    exact ⟨_, ⟨last, hlast, rfl⟩, ht⟩

theorem of_lastTaking? {name : String} {last : DeclaredMethod}
    (h : sig.lastTaking? name = some last) :
    last ∈ sig.methods ∧ last.name = name ∧ ∃ t, sig.Takes last t := by
  obtain ⟨hmem, hlast⟩ := List.mem_filter.1 (List.mem_of_getLast? h)
  obtain ⟨hname, htargets⟩ := of_decide_eq_true hlast
  obtain ⟨t, ht⟩ := List.exists_mem_of_ne_nil _ htargets
  exact ⟨hmem, hname, t, mem_targets.1 ht⟩

theorem exists_lastTaking? {m : DeclaredMethod} (hm : m ∈ sig.methods) {t : String}
    (ht : sig.Takes m t) : ∃ last, sig.lastTaking? m.name = some last := by
  have hmem : m ∈ sig.methods.filter fun m' => m'.name = m.name ∧ sig.targets m' ≠ [] :=
    List.mem_filter.2 ⟨hm, decide_eq_true ⟨rfl, List.ne_nil_of_mem (mem_targets.2 ht)⟩⟩
  exact ⟨_, List.getLast?_eq_some_getLast (List.ne_nil_of_mem hmem)⟩

/-- Where types are looked up without failures the targets are those of a plain fold. -/
theorem recorded_of_total {α : Type} (declared : List α) (name : α → String)
    (types : α → List String) (meaning : String → Option String) :
    (⟨declared.map fun a => ⟨name a, types a⟩, fun written => .ok (meaning written)⟩ :
        Signatures).recorded =
      .ok (declared.foldl (fun r a => r.record (name a) ((types a).filterMap meaning)) .empty) := by
  rw [recorded_eq fun m _ written _ => ⟨_, rfl⟩, List.foldl_map]
  rfl

/-- A function's units that are known are those that its types mean. -/
theorem recorded_functions (g : GoFile) (t : FileTree) (root : Path) (module : String)
    (known : List String) :
    (⟨g.functions.map fun fn => ⟨fn.name, fn.parameterTypes⟩, fun written => do
        return (← g.resolveType? t root module written).filter known.contains⟩ :
          Signatures).recorded = g.parameterTargets t root module known := by
  unfold recorded GoFile.parameterTargets
  rw [List.foldlM_map]
  refine congrArg (fun step => List.foldlM step _ g.functions) (funext₂ fun r fn => ?_)
  have hunits : (fn.parameterTypes.mapM fun written => do
      return (← g.resolveType? t root module written).filter known.contains) =
        List.map (Option.filter known.contains) <$>
          fn.parameterTypes.mapM (g.resolveType? t root module) := by
    induction fn.parameterTypes with
    | nil => rfl
    | cons written rest ih =>
      rw [List.mapM_cons, List.mapM_cons, ih]
      simp only [map_eq_pure_bind, bind_assoc, pure_bind, List.map_cons]
  rw [hunits, bind_map_left]
  refine bind_congr fun units => ?_
  rw [List.filterMap_map, List.filter_filterMap]
  rfl

end Signatures

/-! ## Signatures in every language -/

namespace Examiner

variable (e : Examiner) (s : Sources) (file root : Path) (known : List String)

/-- The methods of a file's unit with the types of their parameters, and what written types mean
in the file. -/
def signatures : Examining Signatures :=
  match e.language with
  | .java => Examining.ofOutcome do
    let j := JavaFile.ofSource (← SourceFile.read s.kept file)
    return ⟨j.methods.map fun m => ⟨m.name, m.parameterTypes⟩,
      fun written => .ok (j.resolveType? known written)⟩
  | .go => Examining.ofOutcome do
    let g := GoFile.ofSource (← SourceFile.read s.kept file)
    let module ← GoFile.modulePath s.kept root
    return ⟨g.functions.map fun fn => ⟨fn.name, fn.parameterTypes⟩, fun written => do
      return (← g.resolveType? s.now root module written).filter known.contains⟩
  | .python => Examining.ofOutcome do
    let m := PythonModule.ofSource (← SourceFile.read s.kept file)
    return ⟨m.functions.map fun fn => ⟨fn.name, fn.parameterTypes⟩, fun written =>
      .ok ((m.imports.get? (Text.beforeFirst written ".")).bind
        (m.resolveModule? s.now root known))⟩
  | .typescript => do
    let a ← e.moduleAnalysis s file
    return ⟨a.methods.map fun m => ⟨m.name, m.parameterTypes⟩, fun written =>
      .ok ((importedUnits s.now file root known a).get? written)⟩

variable {e s file root known}

theorem ofOutcome_bind {α β : Type} (o : Outcome α) (f : α → Outcome β) :
    (Examining.ofOutcome o >>= fun a => Examining.ofOutcome (f a)) =
      Examining.ofOutcome (o >>= f) := by
  cases o <;> rfl

/-- The targets of a file's methods are those that its signatures record. -/
theorem parameterTargets_eq_recorded :
    e.parameterTargets s file root known =
      e.signatures s file root known >>= fun sig => Examining.ofOutcome sig.recorded := by
  unfold parameterTargets signatures
  cases e.language with
  | java =>
    dsimp only
    rw [ofOutcome_bind, bind_assoc]
    refine congrArg Examining.ofOutcome (bind_congr fun f => ?_)
    rw [pure_bind, Signatures.recorded_of_total]
    rfl
  | go =>
    dsimp only
    rw [ofOutcome_bind, bind_assoc]
    refine congrArg Examining.ofOutcome (bind_congr fun f => ?_)
    rw [bind_assoc]
    refine bind_congr fun module => ?_
    rw [pure_bind, Signatures.recorded_functions]
  | python =>
    dsimp only
    rw [ofOutcome_bind, bind_assoc]
    refine congrArg Examining.ofOutcome (bind_congr fun f => ?_)
    rw [pure_bind, Signatures.recorded_of_total]
    rfl
  | typescript =>
    dsimp only
    rw [bind_assoc]
    refine bind_congr fun a => ?_
    rw [pure_bind, Signatures.recorded_of_total]
    rfl

/-- Written types mean known units only. -/
theorem ensures_signatures_known :
    Ensures (fun sig : Signatures => ∀ written t, sig.meaning written = .ok (some t) → t ∈ known)
      (e.signatures s file root known) := by
  unfold signatures
  cases e.language with
  | java =>
    refine Examining.ensures_ofOutcome fun sig hsig => ?_
    obtain ⟨f, -, hsig⟩ := Outcome.bind_eq_ok.1 hsig
    obtain rfl := Except.ok.inj hsig
    intro written t ht
    exact List.contains_iff_mem.1 ((JavaFile.ofSource f).mem_of_resolveType? (Except.ok.inj ht)).1
  | go =>
    refine Examining.ensures_ofOutcome fun sig hsig => ?_
    obtain ⟨f, -, hsig⟩ := Outcome.bind_eq_ok.1 hsig
    obtain ⟨module, -, hsig⟩ := Outcome.bind_eq_ok.1 hsig
    obtain rfl := Except.ok.inj hsig
    intro written t ht
    obtain ⟨unit, -, hunit⟩ := Outcome.bind_eq_ok.1 ht
    exact List.contains_iff_mem.1 (Option.filter_eq_some_iff.1 (Except.ok.inj hunit)).2
  | python =>
    refine Examining.ensures_ofOutcome fun sig hsig => ?_
    obtain ⟨f, -, hsig⟩ := Outcome.bind_eq_ok.1 hsig
    obtain rfl := Except.ok.inj hsig
    intro written t ht
    obtain ⟨origin, -, ht⟩ := Option.bind_eq_some_iff.1 (Except.ok.inj ht)
    exact PythonModule.mem_of_resolveModule? ht
  | typescript =>
    refine (Ensures.trivial _).bind fun a _ => .pure fun written t ht => ?_
    have hmem := Dict.mem_of_get?_ofList (Except.ok.inj ht)
    obtain ⟨i, -, hi⟩ := List.mem_filterMap.1 hmem
    obtain ⟨unit, hunit, heq⟩ := Option.map_eq_some_iff.1 hi
    exact (Prod.mk.inj heq).2 ▸ mem_of_resolveImport? hunit

/-- Only in Go a type may be one whose meaning cannot be found out. -/
theorem ensures_signatures_legible (hlanguage : e.language ≠ .go) :
    Ensures Signatures.Legible (e.signatures s file root known) := by
  unfold signatures
  cases hl : e.language with
  | go => exact absurd hl hlanguage
  | java | python =>
    refine Examining.ensures_ofOutcome fun sig hsig => ?_
    obtain ⟨f, -, hsig⟩ := Outcome.bind_eq_ok.1 hsig
    obtain rfl := Except.ok.inj hsig
    exact fun m _ written _ => ⟨_, rfl⟩
  | typescript =>
    exact (Ensures.trivial _).bind fun a _ => .pure fun m _ written _ => ⟨_, rfl⟩

/-- Without programs a file has signatures exactly if it can be opened and the manifest that its
language consults for them is sound. -/
theorem exists_run_signatures_ok (he : e.analyzer = []) (t : FileTree) (st : ExaminerState) :
    (∃ sig, (e.signatures (.ofFiles t) file root known).run st = (.ok sig, st)) ↔ t.Opens file ∧
      (e.language = .go → t.TextIfFile (root.child "go.mod")) ∧
      (e.language = .typescript → t.TellsFramework e.tools.limits (scriptProject t file)) := by
  have hanalysis := moduleAnalysis_eq he (.ofFiles t) file
  obtain ⟨language, tools⟩ := e
  unfold signatures
  cases language with
  | java | python =>
    rw [and_iff_left ⟨nofun, nofun⟩]
    exact (exists_run_ofOutcome _ st).trans Outcome.exists_bind_pure_ok
  | go =>
    simp only [reduceCtorEq, true_implies, false_implies, and_true]
    exact (exists_run_ofOutcome _ st).trans (GoFile.exists_read_modulePath_ok _)
  | typescript =>
    simp only [reduceCtorEq, true_implies, false_implies, true_and,
      ← Framework.exists_ofProject_ok, ← exists_analyzeModule_ok_iff]
    rw [hanalysis, ofOutcome_map]
    exact (exists_run_ofOutcome _ st).trans Outcome.exists_bind_pure_ok

/-- The parameters of a file's methods are found out exactly if it can be found out what all their
types mean, which is always so but in Go. Under each name stand the targets of the last method of
that name that has any, in the order of its parameters. So a unit that a method takes is listed
under the method's name exactly if that last method takes it, too, and always if no other method
of the name takes a known unit; and what is listed is known and is taken by a method of the name. -/
theorem parameters_of_last_method {st after : ExaminerState} {sig : Signatures}
    (hsig : (e.signatures s file root known).run st = (.ok sig, after)) :
    ((∃ r, (e.parameterTargets s file root known).run st = (.ok r, after)) ↔ sig.Legible) ∧
    (e.language ≠ .go → sig.Legible) ∧
    ∀ r, (e.parameterTargets s file root known).run st = (.ok r, after) →
      (∀ name, r.get? name = (sig.lastTaking? name).map sig.targets) ∧
      (∀ name t, r.Lists name t → t ∈ known ∧ ∃ m ∈ sig.methods, m.name = name ∧ sig.Takes m t) ∧
      ∀ m ∈ sig.methods, ∀ t, sig.Takes m t →
        (∃ last ∈ sig.methods, sig.lastTaking? m.name = some last ∧
          (r.Lists m.name t ↔ sig.Takes last t)) ∧
        ((∀ other ∈ sig.methods, other.name = m.name → other = m ∨ ∀ u, ¬sig.Takes other u) →
          r.Lists m.name t) := by
  have hrun : (e.parameterTargets s file root known).run st =
      (Examining.ofOutcome sig.recorded).run after := by
    rw [parameterTargets_eq_recorded, run_bind_of_ok hsig]
  refine ⟨?_, fun hlanguage => ensures_signatures_legible hlanguage st sig after hsig, ?_⟩
  · rw [hrun, exists_run_ofOutcome, Signatures.exists_recorded_ok]
  intro r hr
  have hrecorded : sig.recorded = .ok r := (Prod.mk.inj (hrun.symm.trans hr)).1
  refine ⟨Signatures.get?_recorded hrecorded, fun name t ht => ?_, fun m hm t ht => ?_⟩
  · obtain ⟨last, hlast, htakes⟩ := (Signatures.lists_recorded hrecorded).1 ht
    obtain ⟨hmem, hname, -⟩ := Signatures.of_lastTaking? hlast
    obtain ⟨written, hwritten, hmeaning⟩ := htakes
    exact ⟨ensures_signatures_known st sig after hsig written t hmeaning, last, hmem, hname,
      written, hwritten, hmeaning⟩
  · obtain ⟨last, hlast⟩ := Signatures.exists_lastTaking? hm ht
    obtain ⟨hmem, hname, u, hu⟩ := Signatures.of_lastTaking? hlast
    have hlists : r.Lists m.name t ↔ sig.Takes last t := by
      rw [Signatures.lists_recorded hrecorded, hlast]
      simp
    refine ⟨⟨last, hmem, hlast, hlists⟩, fun honly => hlists.2 ?_⟩
    rcases honly last hmem hname with rfl | hnone
    · exact ht
    · exact absurd hu (hnone u)

/-- The tree of a method `void m(T p)\x7b\x7d` that begins at a byte. -/
def voidMethod (start : Nat) : SyntaxTree :=
  .node "method_declaration" true "" start (start + 13)
    [.node "void_type" true "type" start (start + 4) [],
    .node "identifier" true "name" (start + 5) (start + 6) [],
    .node "formal_parameters" true "parameters" (start + 6) (start + 11)
      [.node "(" false "" (start + 6) (start + 7) [],
      .node "formal_parameter" true "" (start + 7) (start + 10)
        [.node "type_identifier" true "type" (start + 7) (start + 8) [],
        .node "identifier" true "name" (start + 9) (start + 10) []],
      .node ")" false "" (start + 10) (start + 11) []],
    .node "block" true "body" (start + 11) (start + 13)
      [.node "\x7b" false "" (start + 11) (start + 12) [],
      .node "\x7d" false "" (start + 12) (start + 13) []]]

/-- A class with two methods of one name and one of another. -/
def overloadedFile : FileNode :=
  .file "class C\x7bvoid m(A a)\x7b\x7d void m(B b)\x7b\x7d void n(A a)\x7b\x7d\x7d".toUTF8 (some
    (.node "program" true "" 0 50
      [.node "class_declaration" true "" 0 50
        [.node "class" false "" 0 5 [], .node "identifier" true "name" 6 7 [],
        .node "class_body" true "body" 7 50
          [.node "\x7b" false "" 7 8 [], voidMethod 8, voidMethod 22, voidMethod 36,
          .node "\x7d" false "" 49 50 []]]]))

/-- The class's file in an otherwise empty project. -/
def overloaded : FileTree := ⟨⟨[(["C.java"], overloadedFile)]⟩, []⟩

/-- The signatures of the class. -/
def overloadedSignatures : Signatures :=
  ⟨[⟨"m", ["A"]⟩, ⟨"m", ["B"]⟩, ⟨"n", ["A"]⟩], fun written => .ok (JavaFile.resolveType?
    (JavaFile.ofSource ((SourceFile.read overloaded ⟨true, ["C.java"]⟩).toOption.getD default))
      ["A", "B", "C"] written)⟩

theorem run_signatures_overloaded (st : ExaminerState) :
    (signatures ⟨.java, .standard, []⟩ (.ofFiles overloaded) ⟨true, ["C.java"]⟩ ⟨true, []⟩
      ["A", "B", "C"]).run st = (.ok overloadedSignatures, st) := by
  rfl

/-- The only method of its name keeps its parameter; of the other two the last one does. -/
theorem parameters_of_last_method_of_overloaded :
    ∃ r,
      (parameterTargets ⟨.java, .standard, []⟩ (.ofFiles overloaded) ⟨true, ["C.java"]⟩ ⟨true, []⟩
        ["A", "B", "C"]).run ⟨.empty, none⟩ = (.ok r, ⟨.empty, none⟩) ∧
      r.Lists "n" "A" ∧ r.Lists "m" "B" := by
  obtain ⟨hfound, hlegible, htargets⟩ :=
    parameters_of_last_method (run_signatures_overloaded ⟨.empty, none⟩)
  obtain ⟨r, hr⟩ := hfound.2 (hlegible (by decide))
  obtain ⟨hget, -, hlists⟩ := htargets r hr
  have hn : overloadedSignatures.Takes ⟨"n", ["A"]⟩ "A" := ⟨"A", by decide, by rfl⟩
  have honly : ∀ other ∈ overloadedSignatures.methods, other.name = "n" → other = ⟨"n", ["A"]⟩ := by
    decide
  refine ⟨r, hr, (hlists ⟨"n", ["A"]⟩ (by decide) "A" hn).2 ?_, ?_⟩
  · exact fun other hother hname => .inl (honly other hother hname)
  · exact ⟨["B"], (hget "m").trans (by rfl), by decide⟩

/-- A parameter that is a known unit is lost when a later method has its method's name. -/
theorem parameter_lost_to_overload :
    ∃ r,
      (parameterTargets ⟨.java, .standard, []⟩ (.ofFiles overloaded) ⟨true, ["C.java"]⟩ ⟨true, []⟩
        ["A", "B", "C"]).run ⟨.empty, none⟩ = (.ok r, ⟨.empty, none⟩) ∧
      (⟨"m", ["A"]⟩ ∈ overloadedSignatures.methods ∧
        overloadedSignatures.Takes ⟨"m", ["A"]⟩ "A") ∧ ¬r.Lists "m" "A" := by
  refine ⟨_, rfl, ⟨by decide, "A", by decide, by rfl⟩, ?_⟩
  rintro ⟨targets, hget, ht⟩
  obtain rfl : ["B"] = targets := Option.some.inj (Eq.trans (by rfl) hget)
  exact absurd ht (by decide)

end Examiner

end CodeAtlas
