import CodeAtlas.Proofs.Run.Afresh
import CodeAtlas.Proofs.Source.Discovered
import CodeAtlas.Proofs.Sync.Inquiry

/-!
# Syncs of everything

A sync for which every file counts as changed examines what a fresh analysis examines. This file
proves that the two, whose steps are told in different orders, find the same in workspaces where
there is the same to be seen.
-/

namespace CodeAtlas

open Fallible

variable {σ : Type} {w w' : Workspace σ} {x : Examiner} {repository : Path}

/-! ## Plans in which everything counts as changed -/

namespace SyncPartition

variable {p : SyncPartition} {stored : List String} {g : Graph} {changed : List String}

/-- Every node is updated or added. -/
theorem Sorts.examined_of_full (hp : p.Sorts stored g changed true) {id : String}
    (hid : g.contains id = true) : id ∈ p.updated ++ p.added := by
  rw [List.mem_append]
  by_cases hold : id ∈ stored
  · exact Or.inl ((hp.updated id).2 ⟨⟨hid, hold⟩, rfl⟩)
  · exact Or.inr ((hp.fits.added id).2 ⟨hid, hold⟩)

theorem Sorts.unchanged_of_full (hp : p.Sorts stored g changed true) : p.unchanged = [] := by
  refine List.eq_nil_iff_forall_not_mem.2 fun id hid => ?_
  have hkept := (hp.fits.kept id).1 (Or.inr hid)
  exact hp.fits.apart id ((hp.updated id).2 ⟨hkept, rfl⟩) hid

end SyncPartition

namespace SyncEngine

/-- The outline of a sync of everything, if no file vanishes. -/
def Outline.whole (t : FileTree) (records : Dict String ClassRecord) (diff : Diff)
    (survey : Survey) : Outline :=
  ⟨t, t, survey, records, survey.graph,
    .ofGraph records.keys survey.graph diff.changed diff.full⟩

variable {diff : Diff} {survey : Survey}

/-- A sync of everything extracts all units. -/
theorem Outline.extractions_whole (records : Dict String ClassRecord) (hfull : diff.full = true)
    (hcovers : survey.Covers x w.files repository) (hbare : survey.graph.Bare) :
    (Outline.whole w.files records diff survey).extractions x repository =
      survey.graph.extractions x (.ofFiles w.files) repository (some survey.units) none := by
  have hsorts := SyncPartition.sorts_ofGraph records.keys hbare.wellFormed.nodes_nodup
    diff.changed diff.full
  rw [hfull] at hsorts
  have hwanted : Graph.wantedUnits survey.units
      (some (Outline.whole w.files records diff survey).wanted) = survey.units := by
    refine List.filter_eq_self.2 fun u hu => List.contains_iff_mem.2 ?_
    unfold Outline.wanted Outline.whole
    rw [hfull]
    exact hsorts.examined_of_full ((hcovers.nodes.contains _).2 (List.mem_map_of_mem hu))
  have hall (only : Option (List String)) :
      survey.graph.extractions x (.ofFiles w.files) repository (some survey.units) only =
        Examining.inSession (Examining.ofOutcome (x.sourceRoot (.ofFiles w.files) repository) >>=
          fun root => Graph.extractAll x (.ofFiles w.files) root survey.graph.identifiers
            ((Graph.wantedUnits survey.units only).filter
              fun u => survey.graph.contains u.identifier)) := rfl
  change survey.graph.extractions x (.ofFiles w.files) repository (some survey.units)
    (some (Outline.whole w.files records diff survey).wanted) = _
  rw [hall, hall, hwanted]
  rfl

/-- None of the units has vanished. -/
theorem dropVanished_whole (hw : w.files.WellFormed)
    (hcovers : survey.Covers x w.files repository) {plan : SyncPartition}
    (hplan : ∀ id ∈ plan.added, survey.graph.contains id = true) :
    dropVanished w.files (Dict.ofList (survey.units.map fun u => (u.identifier, u.path)))
      survey.graph plan = (survey.graph, plan) := by
  refine dropVanished_of_isFile fun id hid => ?_
  have hkey : (Dict.ofList (survey.units.map fun u => (u.identifier, u.path))).contains id =
      true := by
    rw [Dict.contains_ofList, List.map_map]
    exact (hcovers.nodes.contains id).1 (hplan id hid)
  obtain ⟨path, hpath⟩ := Dict.exists_get?_of_contains hkey
  refine ⟨path, hpath, ?_⟩
  obtain ⟨u, hu, heq⟩ := List.mem_map.1 (Dict.mem_of_get?_ofList hpath)
  obtain ⟨-, rfl⟩ := Prod.mk.inj heq
  obtain ⟨root, files, -, hfiles, hunits⟩ := hcovers.found
  rw [hunits] at hu
  obtain ⟨file, hfile, rfl⟩ := List.mem_map.1 hu
  unfold Examiner.discover at hfiles
  obtain ⟨sources, -, hfiles⟩ := Outcome.bind_eq_ok.1 hfiles
  exact hw.isFile_of_discover hfiles file hfile

/-- What a sync of everything outlines and extracts is what a survey with all extractions comes
to. -/
theorem run_outlined_whole (hfull : diff.full = true) (hw : w.files.WellFormed)
    (hlasting : w.vanishing = []) (project : String) :
    (do
      let o ← outline x repository project diff
      let xs ← Run.examine (o.extractions x repository)
      return (o, xs) : Run σ _).run w =
    ((fun r => (Outline.whole w.files (recordsByIdentifier w.records.store project) diff r.1,
      r.2)) <$> FreshAnalysis.surveyAll x repository).run w := by
  unfold outline FreshAnalysis.surveyAll
  simp only [bind_assoc, pure_bind, map_bind, map_pure]
  rw [Run.run_files_bind, Run.run_files_bind, run_bind, run_bind]
  cases hsurvey : (Run.examine (Survey.take x w.files repository) : Run σ _).run w with
  | mk o w₁ =>
    cases o with
    | error f => rfl
    | ok survey =>
      obtain ⟨s, htake, rfl⟩ := Run.examine_eq_ok hsurvey
      dsimp only
      have hread : (Run.findByProject project : Run σ _).run { w with examiner := s } =
          (.ok (w.records.store.findByProject project), { w with examiner := s }) := by
        unfold Run.findByProject
        simp only [ExceptT.run_mk, hlasting]
        rfl
      have hcovers := Survey.ensures_take_covers x w.files repository _ _ _ htake
      have hbare := Survey.ensures_take x w.files repository _ _ _ htake
      have hplan := (SyncPartition.sorts_ofGraph
        (recordsByIdentifier w.records.store project).keys hbare.wellFormed.nodes_nodup
        diff.changed diff.full).fits
      have hsame := Outline.extractions_whole (recordsByIdentifier w.records.store project) hfull
        hcovers hbare
      have hkept := dropVanished_whole hw hcovers fun id hid => ((hplan.added id).1 hid).1
      rw [run_bind_of_ok hread, Run.run_files_bind]
      unfold recordsByIdentifier at hkept
      rw [hkept, ← hsame]
      rfl

/-- What a sync of everything has examined is what a survey with all extractions comes to. -/
theorem run_examined_whole (hfull : diff.full = true) (hw : w.files.WellFormed)
    (hlasting : w.vanishing = []) (project : String) :
    (examined x repository project diff : Run σ _).run w =
      ((fun r => (Outline.whole w.files (recordsByIdentifier w.records.store project) diff r.1,
        r.2)) <$> Run.inSession (FreshAnalysis.surveyAll x repository)).run w := by
  unfold examined
  rw [run_map, Run.run_inSession, Run.run_inSession]
  cases w.examiner.session with
  | some session => exact (run_outlined_whole hfull hw hlasting project).trans (run_map _ _ w)
  | none =>
    dsimp only
    rw [run_outlined_whole (w := { w with examiner := { w.examiner with session := some .fresh } })
      hfull hw hlasting project, run_map]

end SyncEngine

end CodeAtlas
