import CodeAtlas.Proofs.Agreement.Synced
import CodeAtlas.Proofs.Run.Asked

/-!
# What a sync has written

A completed sync has deleted the classes of deleted units, saved those of updated and added ones,
and had some of them enriched. This file says what its store then has to do with the one before:
which units it holds, and which nodes and classes it cannot have changed.
-/

namespace CodeAtlas

open RecordStore

namespace SyncEngine

variable {σ : Type} {w w' : Workspace σ} {p head : String} {t : Staged} {a : StoreAccess}

/-- The records of a staged graph that have been written are consistent. -/
theorem writeRecords_consistent (hw : w.records.store.Consistent) {u : Unit}
    (hrun : (writeRecords t.draft t.graph t.updated t.added t.methods : Run σ Unit).run w =
      (.ok u, w')) : w'.records.store.Consistent := by
  unfold writeRecords at hrun
  obtain ⟨_, w₁, hdeleted, hrun⟩ := Fallible.bind_eq_ok.1 hrun
  obtain ⟨_, w₂, hcleared, hrun⟩ := Fallible.bind_eq_ok.1 hrun
  have hsecond : w₂.records.store.Consistent := by
    rw [deleteMethodsAndLinks_eq_ok hcleared, FreshAnalysis.deleteClasses_eq_ok hdeleted]
    exact (hw.deleteClasses _).deleteMethodsAndLinks _
  unfold FreshAnalysis.writeStaged at hrun
  obtain ⟨_, w₃, hclasses, hrun⟩ := Fallible.bind_eq_ok.1 hrun
  obtain ⟨_, w₄, hmethods, hrun⟩ := Fallible.bind_eq_ok.1 hrun
  exact ((hsecond.write (Run.write_eq_ok hclasses)).write (Run.write_eq_ok hmethods)).write
    (Run.write_eq_ok hrun)

/-- The identifiers of the nodes that a sync stages. -/
def Staged.identifiers (t : Staged) : List String := (t.updated ++ t.added).map (·.identifier)

/-- A commit publishes the staged graph with the staged records, or what an enricher has made of
them. -/
theorem commit_cases {e : SyncEngine σ} (he : e.collaborators.Discreet) {state : ProjectState}
    (hw : w.records.store.Consistent) {r : Graph × EnrichmentCounts × ProjectState}
    (hrun : (e.commit state head t).run w = (.ok r, w')) :
    (t.written w.records.store).Consistent ∧
      ((r.1 = t.graph ∧ w'.records.store = t.written w.records.store) ∨
        ∃ (enricher : Enricher σ) (w₁ w₂ : Workspace σ) (counts : EnrichmentCounts),
          (∀ batch, Run.Discreet (enricher batch)) ∧
          w₁.records.store = t.written w.records.store ∧
          (t.graph.enrich enricher (Path.ofText state.repoPath) t.examiner.language.name
            t.identifiers).run w₁ = (.ok (r.1, counts), w₂) ∧
          w'.records = w₂.records) := by
  obtain ⟨w₁, enriched, w₂, hwrite, henrich, hkept, rfl⟩ := commit_eq_ok he hrun
  have hwritten : w₁.records.store = t.written w.records.store := writeRecords_eq_ok hwrite
  refine ⟨hwritten ▸ writeRecords_consistent hw hwrite, ?_⟩
  rcases enrichStaged_eq_ok henrich with ⟨rfl, rfl⟩ | ⟨enricher, henricher, henrich⟩
  · exact Or.inl ⟨rfl, by rw [hkept, hwritten]⟩
  · exact Or.inr ⟨enricher, w₁, w₂, enriched.2, he.enricher _ henricher, hwritten, henrich, hkept⟩

/-- Committing writes the staged records; then nothing changes but staged nodes and the classes
to which they are tied. -/
theorem commit_writtenBack {e : SyncEngine σ} (he : e.collaborators.Discreet)
    {state : ProjectState} (hw : w.records.store.Consistent)
    {r : Graph × EnrichmentCounts × ProjectState}
    (hrun : (e.commit state head t).run w = (.ok r, w')) :
    Graph.WrittenBack t.identifiers t.graph (t.written w.records.store) r.1 w'.records.store := by
  obtain ⟨hconsistent, ⟨hgraph, hstore⟩ | ⟨_, w₁, _, _, henricher, hwritten, henrich, hkept⟩⟩ :=
    commit_cases he hw hrun
  · rw [hgraph, hstore]
    exact .refl _ _ hconsistent
  · rw [← hwritten] at hconsistent ⊢
    rw [hkept]
    exact Graph.enrich_writtenBack hconsistent henricher henrich

end SyncEngine

end CodeAtlas
