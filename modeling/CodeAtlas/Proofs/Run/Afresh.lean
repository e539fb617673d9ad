import CodeAtlas.Proofs.Links.Published
import CodeAtlas.Proofs.Run.Described
import CodeAtlas.Proofs.Run.Sight
import CodeAtlas.Proofs.Source.Units

/-!
# Analyses without an enricher

A fresh analysis surveys a repository and extracts the facts of all its units. Without an enricher
it then stores and publishes what this comes to, every node under a new record. This file tells an
analysis by its survey and its extractions.
-/

namespace CodeAtlas

open Fallible RecordStore

variable {σ : Type} {w w' : Workspace σ} {x : Examiner} {repository : Path}

/-! ## Surveys with all extractions -/

namespace FreshAnalysis

/-- A survey, and the extractions of all its units. -/
def surveyAll (x : Examiner) (repository : Path) : Run σ (Survey × List Extraction) := do
  let t ← Run.files
  let survey ← Run.examine (Survey.take x t repository)
  let xs ← Run.examine
    (survey.graph.extractions x (.ofFiles t) repository (some survey.units) none)
  return (survey, xs)

/-- A fresh analysis finds what a survey with all extractions comes to. -/
theorem examineAll_eq (x : Examiner) (repository : Path) :
    (examineAll x repository : Run σ _) =
      (fun r => (r.1, r.1.graph.describedBy r.2, Extraction.failures r.2)) <$>
        Run.inSession (surveyAll x repository) := by
  unfold examineAll surveyAll
  rw [← Run.inSession_map]
  congr 1
  simp only [Graph.describe_eq, Run.examine_map, map_bind, map_pure, bind_map_left]

theorem seesOnly_surveyAll (x : Examiner) (repository : Path) :
    SeesOnly Run.sight (surveyAll x repository : Run σ _) := by
  unfold surveyAll
  refine Run.seesOnly_files_bind fun t => ?_
  refine (Run.seesOnly_examine (Survey.seesOnly_take x t repository)).bind fun survey => ?_
  refine (Run.seesOnly_examine (Graph.seesOnly_extractions x _ _ repository _ _)).bind
    fun xs => .pure _

/-- A survey with extractions of all units: they are those that are discovered, they are the
nodes, and the extractions are theirs. -/
structure Surveyed (x : Examiner) (t : FileTree) (repository : Path)
    (r : Survey × List Extraction) : Prop where
  bare : r.1.graph.Bare
  covers : r.1.Covers x t repository
  units : r.2.map (·.unit) = r.1.units

theorem surveyAll_eq_ok {r : Survey × List Extraction}
    (h : (Run.inSession (surveyAll x repository) : Run σ _).run w = (.ok r, w')) :
    Surveyed x w.files repository r := by
  obtain ⟨w₀, w₁, -, hfiles, -, h⟩ := Run.inSession_eq_ok h
  unfold surveyAll at h
  rw [Run.run_files_bind, hfiles] at h
  obtain ⟨survey, w₂, hsurvey, h⟩ := Fallible.bind_eq_ok.1 h
  obtain ⟨xs, w₃, hxs, h⟩ := Fallible.bind_eq_ok.1 h
  cases h
  obtain ⟨_, hsurvey, -⟩ := Run.examine_eq_ok hsurvey
  obtain ⟨_, hxs, -⟩ := Run.examine_eq_ok hxs
  have hcovers := Survey.ensures_take_covers x w.files repository _ _ _ hsurvey
  refine ⟨Survey.ensures_take x w.files repository _ _ _ hsurvey, hcovers, ?_⟩
  have hunits := Graph.ensures_extractions survey.graph x (.ofFiles w.files) repository
    survey.units none _ _ _ hxs
  refine hunits.trans (List.filter_eq_self.2 fun u hu => ?_)
  exact (hcovers.nodes.contains _).2 (List.mem_map_of_mem hu)

/-- What every extraction that succeeds ensures, all of a survey have met. -/
theorem surveyAll_meets {P : SourceUnit → UnitFacts → Prop}
    (hextract : ∀ root known u,
      Ensures (P u) (UnitFacts.extract x (.ofFiles w.files) root known u.path))
    {r : Survey × List Extraction}
    (h : (Run.inSession (surveyAll x repository) : Run σ _).run w = (.ok r, w')) :
    ∀ y ∈ r.2, y.Meets P := by
  obtain ⟨w₀, w₁, -, hfiles, -, h⟩ := Run.inSession_eq_ok h
  unfold surveyAll at h
  rw [Run.run_files_bind, hfiles] at h
  obtain ⟨survey, w₂, -, h⟩ := Fallible.bind_eq_ok.1 h
  obtain ⟨xs, w₃, hxs, h⟩ := Fallible.bind_eq_ok.1 h
  cases h
  exact Run.ensures_examine (Graph.ensures_extractions_meets hextract _ _ _ _) _ _ _ hxs

/-- If no extraction failed, every node of the described graph is classified. -/
theorem Surveyed.classified {t : FileTree} {r : Survey × List Extraction}
    (h : Surveyed x t repository r) (hok : Extraction.failures r.2 = []) {id : String}
    (hid : (r.1.graph.describedBy r.2).contains id = true) :
    (r.1.graph.describedBy r.2).Classified id := by
  rw [Graph.contains_congr (Graph.nodes_describedBy ..)] at hid
  have hunit := (h.covers.nodes.contains id).1 hid
  rw [← h.units, List.map_map] at hunit
  obtain ⟨y, hy, heq⟩ := List.mem_map.1 hunit
  exact Graph.classified_describedBy (Extraction.failures_eq_nil.1 hok) (Or.inr ⟨hid, y, hy, heq⟩)

/-! ## Analyses -/

variable {c : Collaborators σ} {state : ProjectState} {given : Option Examiner}
  {tools : Tooling}

/-- What an analysis without an enricher has done about a survey with its extractions: it has
stored and published the described graph, every node under a new record. -/
structure Done (c : Collaborators σ) (state : ProjectState) (w w' : Workspace σ)
    (found : Survey × List Extraction) (a : FreshAnalysis) (rs : List ClassRecord) : Prop where
  failures : a.summary.parseFailures = (Extraction.failures found.2).length
  staged : rs = recordsOfAll state.id a.summary.commit (found.1.graph.describedBy found.2)
    w.records.issued
  graph : a.graph = (found.1.graph.describedBy found.2).bindAll rs
  advanced : a.summary.state = state.advance c.clock a.summary.commit a.graph.toText
  published : w'.registry.get? state.id = some a.graph
  store : w'.records.store = (w.records.store.deleteClasses
    ((w.records.store.findByProject state.id).map (·.id))).withStaged a.graph rs
      (allRowsFrom a.graph (w.records.issued + rs.length) rs)

/-- An analysis without an enricher that succeeds has asked for the commit, surveyed the
repository, and then done what is to be done about that. -/
theorem runWith_eq_ok (hc : c.Plain) {a : FreshAnalysis}
    (hrun : (runWith c repository state given tools).run w = (.ok a, w')) :
    ∃ x w₁ found w₂ rs,
      ((chooseExaminer given repository state tools : Run σ Examiner).run w).1 = .ok x ∧
      (commitOf c repository).run w = (.ok a.summary.commit, w₁) ∧
      (Run.inSession (surveyAll x repository) : Run σ _).run w₁ = (.ok found, w₂) ∧
      Done c state w w' found a rs := by
  unfold runWith run at hrun
  obtain ⟨x, w₀, hchoose, hrun⟩ := Fallible.bind_eq_ok.1 hrun
  obtain ⟨f, w₃, hfind, hrun⟩ := Fallible.bind_eq_ok.1 hrun
  obtain ⟨⟨g, counts, advanced⟩, w₄, hstore, hrun⟩ := Fallible.bind_eq_ok.1 hrun
  obtain ⟨_, w₅, hpublish, hrun⟩ := Fallible.bind_eq_ok.1 hrun
  have hsame := run_chooseExaminer given repository state tools w
  rw [hchoose] at hsame
  obtain rfl : w₀ = w := hsame
  have hrecords := ((find_discreet hc.discreet repository state.id x).eq hfind).1
  unfold find at hfind
  obtain ⟨commit, w₁, hcommit, hfind⟩ := Fallible.bind_eq_ok.1 hfind
  obtain ⟨⟨survey, examined, failed⟩, w₂, hexamined, hfind⟩ := Fallible.bind_eq_ok.1 hfind
  obtain ⟨snapshot, w₆, hsnapshot, hfind⟩ := Fallible.bind_eq_ok.1 hfind
  have htaken := Run.takeSnapshot_eq_ok hsnapshot
  have hkept : w₂.records = w₀.records := by
    rw [((examineAll_discreet x repository).eq hexamined).1,
      ((commitOf_discreet hc.discreet repository).eq hcommit).1]
  rw [hkept] at htaken
  cases hfind
  cases hpublish
  cases hrun
  rw [examineAll_eq, run_map] at hexamined
  cases hsurveyed : (Run.inSession (surveyAll x repository) : Run σ _).run w₁ with
  | mk o w₇ =>
    rw [hsurveyed] at hexamined
    cases o with
    | error f => cases hexamined
    | ok found =>
      cases hexamined
      obtain ⟨h, rs, hrs, rfl, hresult, hstored⟩ := store_plain hc (Run.orRestore_eq_ok hstore)
      cases hresult
      dsimp only at hrs hstored hrecords
      rw [htaken, hrecords] at hstored
      rw [htaken, hrecords] at hrs
      exact ⟨x, w₁, found, w₇, rs, by rw [hchoose], hcommit, hsurveyed, rfl, hrs, rfl, rfl,
        (Registry.get?_put ..).trans (if_pos rfl), hstored⟩

end FreshAnalysis

end CodeAtlas
