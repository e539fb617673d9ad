import CodeAtlas.Proofs.Run.Surveyed

/-!
# Extractions

Describing the nodes of a graph extracts the facts of their units' files one after the other.
This file sets the extractions apart from what they lead to: the described graph and the units
that are reported as failed follow from what each extraction came to.
-/

namespace CodeAtlas

namespace Fallible

theorem run_map {ε S α β : Type} (f : α → β) (x : ExceptT ε (StateM S) α) (s : S) :
    (f <$> x).run s = ((x.run s).1.map f, (x.run s).2) := by
  rw [map_eq_pure_bind, run_bind]
  cases x.run s with
  | mk o t => cases o <;> rfl

end Fallible

open Fallible

/-- One extraction: the unit, and its facts or the failure. -/
structure Extraction where
  unit : SourceUnit
  outcome : Outcome UnitFacts

namespace Extraction

/-- Whether an extraction failed. -/
def Raised (x : Extraction) : Prop := ∃ f, x.outcome = .error f

/-- A graph after one extraction: what failed leaves no trace. -/
def describe (g : Graph) (x : Extraction) : Graph :=
  match x.outcome with
  | .ok facts => g.describeNode x.unit.identifier facts
  | .error _ => g

/-- The failed units after one extraction. -/
def note (failed : List String) (x : Extraction) : List String :=
  match x.outcome with
  | .ok _ => failed
  | .error _ => appendNew failed x.unit.identifier

/-- The units some extraction of which failed. -/
def failures (xs : List Extraction) : List String := xs.foldl note []

theorem mem_note {failed : List String} {x : Extraction} {id : String} :
    id ∈ x.note failed ↔ id ∈ failed ∨ x.unit.identifier = id ∧ x.Raised := by
  unfold note Raised
  cases x.outcome with
  | ok facts => simp
  | error f => simp [mem_appendNew, eq_comm]

/-- A unit is reported as failed exactly if one of its extractions failed. -/
theorem mem_failures {xs : List Extraction} {id : String} :
    id ∈ failures xs ↔ ∃ x ∈ xs, x.unit.identifier = id ∧ x.Raised := by
  have hmain (failed : List String) :
      id ∈ xs.foldl note failed ↔
        id ∈ failed ∨ ∃ x ∈ xs, x.unit.identifier = id ∧ x.Raised := by
    induction xs generalizing failed with
    | nil => simp
    | cons x rest ih =>
      rw [List.foldl_cons, ih, mem_note]
      simp [or_assoc]
  simpa [failures] using hmain []

/-- Nothing is reported as failed exactly if no extraction failed. -/
theorem failures_eq_nil {xs : List Extraction} :
    failures xs = [] ↔ ∀ x ∈ xs, ¬x.Raised := by
  rw [List.eq_nil_iff_forall_not_mem]
  constructor
  · intro h x hx hraised
    exact h x.unit.identifier (mem_failures.2 ⟨x, hx, rfl, hraised⟩)
  · intro h id hid
    obtain ⟨x, hx, -, hraised⟩ := mem_failures.1 hid
    exact h x hx hraised

/-- Whether the facts of an extraction, if it did not fail, are such as its unit's are to be. -/
def Meets (P : SourceUnit → UnitFacts → Prop) (x : Extraction) : Prop :=
  ∀ facts, x.outcome = .ok facts → P x.unit facts

theorem nodes_describe (g : Graph) (x : Extraction) : (x.describe g).nodes = g.nodes := by
  unfold describe
  split
  · exact Graph.nodes_describeNode ..
  · rfl

end Extraction

namespace Graph

/-- The extractions of units, one after the other. -/
def extractAll (e : Examiner) (s : Sources) (root : Path) (known : List String) :
    List SourceUnit → Examining (List Extraction)
  | [] => return []
  | u :: us => do
    let outcome ← (UnitFacts.extract e s root known u.path).attempt
    let later ← extractAll e s root known us
    return ⟨u, outcome⟩ :: later

/-- Every unit is extracted, whether that fails or not. -/
theorem ensures_extractAll (e : Examiner) (s : Sources) (root : Path) (known : List String)
    (us : List SourceUnit) :
    Ensures (fun xs => xs.map (·.unit) = us) (extractAll e s root known us) := by
  induction us with
  | nil => exact .pure rfl
  | cons u us ih =>
    unfold extractAll
    refine (Ensures.trivial _).bind fun o _ => ih.bind fun xs hxs => .pure ?_
    rw [List.map_cons, hxs]

/-- What every extraction that succeeds ensures, all of several have met. -/
theorem ensures_extractAll_meets {P : SourceUnit → UnitFacts → Prop} {e : Examiner} {s : Sources}
    {root : Path} {known : List String}
    (h : ∀ u, Ensures (P u) (UnitFacts.extract e s root known u.path)) (us : List SourceUnit) :
    Ensures (fun xs => ∀ x ∈ xs, x.Meets P) (extractAll e s root known us) := by
  induction us with
  | nil => exact .pure fun x hx => by cases hx
  | cons u us ih =>
    unfold extractAll
    refine (Examining.ensures_attempt (h u)).bind fun o ho => ih.bind fun xs hxs => .pure ?_
    intro x hx
    rcases List.mem_cons.1 hx with rfl | hx
    · exact ho
    · exact hxs x hx

/-- The graph after extractions. -/
def describedBy (g : Graph) (xs : List Extraction) : Graph := xs.foldl Extraction.describe g

theorem nodes_describedBy (g : Graph) (xs : List Extraction) :
    (g.describedBy xs).nodes = g.nodes := by
  unfold describedBy
  induction xs generalizing g with
  | nil => rfl
  | cons x rest ih => exact (ih _).trans (Extraction.nodes_describe g x)

/-- Describing units is to extract those that are nodes and to note what came of it. -/
theorem describeUnits_eq (e : Examiner) (s : Sources) (root : Path) (known : List String)
    (us : List SourceUnit) (g : Graph) (failed : List String) :
    describeUnits e s root known us g failed =
      (fun xs => (g.describedBy xs, xs.foldl Extraction.note failed)) <$>
        extractAll e s root known (us.filter fun u => g.contains u.identifier) := by
  induction us generalizing g failed with
  | nil => rfl
  | cons u us ih =>
    unfold describeUnits
    by_cases hu : g.contains u.identifier = true
    · rw [if_pos hu, List.filter_cons_of_pos (by simpa using hu), extractAll, map_bind]
      refine bind_congr fun o => ?_
      have hkept (h : Graph) (hnodes : h.nodes = g.nodes) :
          (us.filter fun v => h.contains v.identifier) =
            us.filter fun v => g.contains v.identifier := by
        simp only [contains_congr hnodes]
      cases o with
      | ok facts =>
        dsimp only
        rw [ih, hkept _ (nodes_describeNode ..), map_bind, map_eq_pure_bind]
        refine bind_congr fun xs => ?_
        rw [map_pure]
        rfl
      | error f =>
        dsimp only
        rw [ih, map_bind, map_eq_pure_bind]
        refine bind_congr fun xs => ?_
        rw [map_pure]
        rfl
    · rw [if_neg hu, List.filter_cons_of_neg (by simpa using hu), ih]

/-- The extractions of a description. -/
def extractions (g : Graph) (e : Examiner) (s : Sources) (repository : Path)
    (units : Option (List SourceUnit)) (only : Option (List String)) :
    Examining (List Extraction) :=
  Examining.inSession do
    let root ← Examining.ofOutcome (e.sourceRoot s repository)
    let units ← Examining.ofOutcome (unitsOrFound e s repository root units)
    extractAll e s root g.identifiers
      ((wantedUnits units only).filter fun u => g.contains u.identifier)

/-- The units that are extracted are those of the nodes that are wanted. -/
theorem ensures_extractions (g : Graph) (e : Examiner) (s : Sources) (repository : Path)
    (units : List SourceUnit) (only : Option (List String)) :
    Ensures (fun xs => xs.map (·.unit) =
        (wantedUnits units only).filter fun u => g.contains u.identifier)
      (g.extractions e s repository (some units) only) := by
  unfold extractions
  refine Examining.ensures_inSession ((Ensures.trivial _).bind fun root _ => ?_)
  refine (Examining.ensures_ofOutcome (P := fun found => found = units) fun found h => ?_).bind
    fun found hfound => ?_
  · exact (Except.ok.inj h).symm
  · subst hfound
    exact ensures_extractAll e s root _ _

theorem ensures_extractions_meets {P : SourceUnit → UnitFacts → Prop} {e : Examiner} {s : Sources}
    (h : ∀ root known u, Ensures (P u) (UnitFacts.extract e s root known u.path)) (g : Graph)
    (repository : Path) (units : Option (List SourceUnit)) (only : Option (List String)) :
    Ensures (fun xs => ∀ x ∈ xs, x.Meets P) (g.extractions e s repository units only) := by
  unfold extractions
  refine Examining.ensures_inSession ((Ensures.trivial _).bind fun root _ => ?_)
  exact (Ensures.trivial _).bind fun found _ => ensures_extractAll_meets (h root _) _

theorem run_inSession {α : Type} (x : Examining α) (st : ExaminerState) :
    (Examining.inSession x).run st =
      match st.session with
      | some _ => x.run st
      | none =>
        ((x.run { st with session := some .fresh }).1,
          ⟨AnalyzerSession.finish
              ((x.run { st with session := some .fresh }).2.session.bind (·.running))
              (x.run { st with session := some .fresh }).2.host, none⟩) := by
  unfold Examining.inSession
  cases st with
  | mk host session => cases session <;> rfl

theorem inSession_map {α β : Type} (f : α → β) (x : Examining α) :
    Examining.inSession (f <$> x) = f <$> Examining.inSession x := by
  refine ExceptT.ext (funext fun st => ?_)
  rw [run_map, run_inSession, run_inSession, run_map, run_map]
  cases st.session <;> rfl

/-- A description comes to what its extractions come to. -/
theorem describe_eq (g : Graph) (e : Examiner) (s : Sources) (repository : Path)
    (units : Option (List SourceUnit)) (only : Option (List String)) :
    g.describe e s repository units only =
      (fun xs => (g.describedBy xs, Extraction.failures xs)) <$>
        g.extractions e s repository units only := by
  unfold describe extractions
  rw [← inSession_map]
  congr 1
  simp only [map_bind, describeUnits_eq]
  rfl

end Graph

namespace Run

variable {σ α β : Type}

theorem run_inSession (x : Run σ α) (w : Workspace σ) :
    (Run.inSession x).run w =
      match w.examiner.session with
      | some _ => x.run w
      | none =>
        ((x.run { w with examiner := { w.examiner with session := some .fresh } }).1,
          { (x.run { w with examiner := { w.examiner with session := some .fresh } }).2 with
            examiner := ⟨AnalyzerSession.finish
              ((x.run { w with examiner := { w.examiner with
                session := some .fresh } }).2.examiner.session.bind (·.running))
              (x.run { w with examiner := { w.examiner with
                session := some .fresh } }).2.examiner.host, none⟩ }) := by
  unfold Run.inSession
  simp only [ExceptT.run_mk]
  cases w.examiner.session <;> rfl

theorem inSession_map (f : α → β) (x : Run σ α) :
    Run.inSession (f <$> x) = f <$> Run.inSession x := by
  refine ExceptT.ext (funext fun w => ?_)
  rw [Fallible.run_map, run_inSession, run_inSession, Fallible.run_map, Fallible.run_map]
  cases w.examiner.session <;> rfl

theorem examine_map (f : α → β) (x : Examining α) :
    (Run.examine (f <$> x) : Run σ β) = f <$> Run.examine x := by
  refine ExceptT.ext (funext fun w => ?_)
  rw [Fallible.run_map]
  unfold Run.examine
  simp only [ExceptT.run_mk, Fallible.run_map]
  rfl

/-- A step of an examiner changes nothing but the examiner. -/
theorem examine_eq_ok {x : Examining α} {a : α} {w w' : Workspace σ}
    (h : (examine x : Run σ α).run w = (.ok a, w')) :
    ∃ s, x.run w.examiner = (.ok a, s) ∧ w' = { w with examiner := s } := by
  obtain ⟨ho, hw⟩ := Prod.mk.inj h
  exact ⟨(x.run w.examiner).2, Prod.ext ho rfl, hw.symm⟩

end Run

end CodeAtlas
