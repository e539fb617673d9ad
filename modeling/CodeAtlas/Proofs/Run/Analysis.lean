import CodeAtlas.Proofs.Record.Rollback
import CodeAtlas.Proofs.Run.Surveyed
import CodeAtlas.Proofs.Run.Writing

/-!
# Fresh analyses as a whole

A fresh analysis looks around, writes the records of its project and publishes its graph last.
This file says what it found before it wrote, and proves that one that fails has published
nothing and, if its rollback is not refused, has changed no answer of the store.
-/

namespace CodeAtlas

open RecordStore

variable {σ : Type} {w w' : Workspace σ} {c : Collaborators σ}

/-! ## Rollbacks -/

/-- A run that fails while it writes for one project leaves every answer of the store as it was,
if putting the snapshot back is not refused. -/
theorem Run.orRestore_failed {α : Type} {x : Run σ α} {p : String} {f : Failure}
    (hw : w.records.Sound) (hx : Workspace.Advances p w (x.run w).2)
    (hgranted : Restorable (Snapshot.take w.records.store p) x w)
    (hrun : (orRestore (Snapshot.take w.records.store p) x).run w = (.error f, w')) :
    SameAnswers w.records.store w'.records.store ∧ w'.registry = w.registry := by
  obtain ⟨w₁, hfailed, hrecords, hregistry⟩ := orRestore_eq_error hrun
  rw [hfailed] at hx
  rw [hrecords, hregistry]
  exact ⟨Snapshot.restore_sameAnswers hw.consistent hw.inside hx.records.sound hx.records.frame
    (hgranted f w₁ hfailed), hx.registry⟩

/-- Whether it fails or not, and whatever becomes of the rollback, such a run stays within its
project. -/
theorem Run.orRestore_advances {α : Type} {x : Run σ α} {p : String}
    (hw : w.records.Sound) (hx : Workspace.Advances p w (x.run w).2) :
    Workspace.Advances p w ((orRestore (Snapshot.take w.records.store p) x).run w).2 := by
  cases hrun : (orRestore (Snapshot.take w.records.store p) x).run w with
  | mk o w' =>
    cases o with
    | ok a => rwa [orRestore_eq_ok hrun] at hx
    | error f =>
      obtain ⟨w₁, hfailed, hrecords, hregistry⟩ := orRestore_eq_error hrun
      rw [hfailed] at hx
      have hback := Snapshot.restore_advances hw hx.records
      refine ⟨?_, hregistry.trans hx.registry⟩
      rw [hrecords]
      exact hx.records.trans hback

/-- A store that refuses nothing grants every rollback. -/
theorem Run.restorable_of_unrefused {α : Type} {x : Run σ α} {p : String}
    (hw : w.records.Sound) (hfree : w.records.Unrefused)
    (hx : Workspace.Advances p w (x.run w).2) :
    Restorable (Snapshot.take w.records.store p) x w := by
  intro f w₁ hfailed
  rw [hfailed] at hx
  exact Snapshot.restore_of_unrefused hw.consistent (hx.records.refusal.trans hfree)

namespace FreshAnalysis

/-! ## Looking around -/

theorem chooseExaminer_discreet (given : Option Examiner) (repository : Path)
    (state : ProjectState) (tools : Tooling) :
    Run.Discreet (chooseExaminer given repository state tools : Run σ Examiner) := by
  unfold chooseExaminer
  split
  · exact Run.discreet_pure _
  · exact Run.discreet_files.bind fun _ => Run.discreet_ofOutcome _

/-- Looking for the commit leaves alone what version control leaves alone. -/
theorem keeps_commitOf {γ : Type} {part : Workspace σ → γ} {repository : Path}
    (h : ∀ v, c.versionControl = some v → Fallible.Keeps part (v.head repository)) :
    Fallible.Keeps part (commitOf c repository) := by
  unfold commitOf
  split
  · exact .pure _
  · next v hv =>
    have hattempt : Fallible.Keeps part (Run.attempt (v.head repository)) := fun w => h v hv w
    refine hattempt.bind fun o => ?_
    split
    · exact .pure _
    · exact .pure _
    · exact .throw _

theorem commitOf_discreet (hc : c.Discreet) (repository : Path) :
    Run.Discreet (commitOf c repository) :=
  keeps_commitOf fun v hv => (hc.versionControl v hv).head repository

theorem examineAll_discreet (e : Examiner) (repository : Path) :
    Run.Discreet (examineAll e repository : Run σ _) := by
  unfold examineAll
  refine Run.Discreet.inSession ?_
  refine Run.discreet_files.bind fun t => ?_
  refine (Run.discreet_examine _).bind fun survey => ?_
  exact (Run.discreet_examine _).bind fun r => Run.discreet_pure _

/-- Nothing is written before all has been found out. -/
theorem find_discreet (hc : c.Discreet) (repository : Path) (project : String) (e : Examiner) :
    Run.Discreet (find c repository project e) := by
  unfold find
  refine (commitOf_discreet hc repository).bind fun commit => ?_
  refine (examineAll_discreet e repository).bind fun r => ?_
  exact (Run.discreet_takeSnapshot project).bind fun snapshot => Run.discreet_pure _

/-- The examined graph is bare. -/
theorem ensures_examineAll (e : Examiner) (repository : Path) :
    Fallible.Ensures (fun r => r.2.1.Bare) (examineAll e repository : Run σ _) := by
  unfold examineAll
  refine Run.ensures_inSession ?_
  refine (Fallible.Ensures.trivial _).bind fun t _ => ?_
  refine (Run.ensures_examine (Survey.ensures_take e t repository)).bind fun survey hs => ?_
  refine (Run.ensures_examine (Graph.ensures_describe hs e _ repository _ _)).bind fun r hr => ?_
  exact .pure hr.1

/-- What is found is a bare graph and the project's records as they are. -/
theorem find_eq_ok {repository : Path} {project : String} {e : Examiner} {f : Findings}
    (h : (find c repository project e).run w = (.ok f, w')) :
    f.graph.Bare ∧ f.snapshot = Snapshot.take w'.records.store project := by
  unfold find at h
  obtain ⟨commit, w₁, -, h⟩ := Fallible.bind_eq_ok.1 h
  obtain ⟨r, w₂, hexamined, h⟩ := Fallible.bind_eq_ok.1 h
  obtain ⟨snapshot, w₃, hsnapshot, h⟩ := Fallible.bind_eq_ok.1 h
  have hrecords := ((Run.discreet_takeSnapshot project).eq hsnapshot).1
  have htaken := Run.takeSnapshot_eq_ok hsnapshot
  cases h
  exact ⟨ensures_examineAll e repository w₁ _ _ hexamined, by rw [htaken, hrecords]⟩

/-! ## Whole analyses -/

/-- Whether the rollback of an analysis is not refused, if the analysis fails while it writes. -/
def RollbackGranted (c : Collaborators σ) (repository : Path) (state : ProjectState)
    (given : Option Examiner) (tools : Tooling) (w : Workspace σ) : Prop :=
  ∀ e w₁ f w₂, (chooseExaminer given repository state tools).run w = (.ok e, w₁) →
    (find c repository state.id e).run w₁ = (.ok f, w₂) →
    Run.Restorable f.snapshot (store c repository e state f.commit f.snapshot f.graph) w₂

variable {repository : Path} {state : ProjectState} {given : Option Examiner}
  {tools : Tooling}

/-- The steps of an analysis: it chooses an examiner, finds out all about the repository, writes,
and publishes. -/
theorem runWith_cases (c : Collaborators σ) (repository : Path) (state : ProjectState)
    (given : Option Examiner) (tools : Tooling) (w : Workspace σ)
    (hc : c.Discreet) :
    (∃ f w₁, (runWith c repository state given tools).run w = (.error f, w₁) ∧
        w₁.records = w.records ∧ w₁.registry = w.registry) ∨
      ∃ e w₁ f w₂,
        (chooseExaminer given repository state tools).run w = (.ok e, w₁) ∧
        (find c repository state.id e).run w₁ = (.ok f, w₂) ∧
        w₂.records = w.records ∧ w₂.registry = w.registry ∧ f.graph.Bare ∧
        f.snapshot = Snapshot.take w.records.store state.id ∧
        (runWith c repository state given tools).run w =
          (do
            let (g, counts, advanced) ←
              Run.orRestore f.snapshot (store c repository e state f.commit f.snapshot f.graph)
            Run.publish state.id state.name g
            return ofFindings c f g counts advanced : Run σ FreshAnalysis).run w₂ := by
  cases hchoose : (chooseExaminer given repository state tools : Run σ Examiner).run w with
  | mk o w₁ =>
    obtain ⟨hrecords₁, hregistry₁⟩ :=
      (chooseExaminer_discreet given repository state tools).eq hchoose
    cases o with
    | error f =>
      refine Or.inl ⟨f, w₁, ?_, hrecords₁, hregistry₁⟩
      unfold runWith
      rw [Fallible.run_bind, hchoose]
    | ok e =>
      cases hfind : (find c repository state.id e).run w₁ with
      | mk o w₂ =>
        obtain ⟨hrecords₂, hregistry₂⟩ := (find_discreet hc repository state.id e).eq hfind
        cases o with
        | error f =>
          refine Or.inl ⟨f, w₂, ?_, hrecords₂.trans hrecords₁, hregistry₂.trans hregistry₁⟩
          unfold runWith run
          rw [Fallible.run_bind_of_ok hchoose, Fallible.run_bind, hfind]
        | ok f =>
          obtain ⟨hbare, hsnapshot⟩ := find_eq_ok hfind
          have hrecords := hrecords₂.trans hrecords₁
          refine Or.inr ⟨e, w₁, f, w₂, rfl, hfind, hrecords, hregistry₂.trans hregistry₁,
            hbare, by rw [hsnapshot, hrecords], ?_⟩
          unfold runWith run
          rw [Fallible.run_bind_of_ok hchoose, Fallible.run_bind_of_ok hfind]

/-- An analysis that succeeds has found a bare graph and has stored it as what it publishes. -/
theorem runWith_stored (hc : c.Discreet) {a : FreshAnalysis}
    (hrun : (runWith c repository state given tools).run w = (.ok a, w')) :
    ∃ (e : Examiner) (f : Findings) (counts : EnrichmentCounts) (w₁ w₂ : Workspace σ),
      w₁.records = w.records ∧ f.graph.Bare ∧
      (store c repository e state f.commit (Snapshot.take w₁.records.store state.id) f.graph).run
        w₁ = (.ok (a.graph, counts, a.summary.state), w₂) ∧ w'.records = w₂.records := by
  rcases runWith_cases c repository state given tools w hc with
    ⟨f, w₁, hfailed, -, -⟩ | ⟨e, w₁, f, w₂, -, -, hrecords, -, hbare, hsnapshot, heq⟩
  · rw [hfailed] at hrun
    cases hrun
  · rw [heq] at hrun
    obtain ⟨⟨g, counts, advanced⟩, w₃, hstore, hrun⟩ := Fallible.bind_eq_ok.1 hrun
    obtain ⟨_, w₄, hpublish, hrun⟩ := Fallible.bind_eq_ok.1 hrun
    cases hpublish
    cases hrun
    rw [hsnapshot, ← hrecords] at hstore
    exact ⟨e, f, counts, w₂, w₃, hrecords, hbare, Run.orRestore_eq_ok hstore, rfl⟩

/-- An analysis that fails has published nothing and, if its rollback is not refused, has
changed no answer of the store. -/
theorem runWith_failed (hc : c.Discreet) (hw : w.records.Sound)
    (hgranted : RollbackGranted c repository state given tools w) {f : Failure}
    (hrun : (runWith c repository state given tools).run w = (.error f, w')) :
    SameAnswers w.records.store w'.records.store ∧ w'.registry = w.registry := by
  rcases runWith_cases c repository state given tools w hc with
    ⟨f', w₁, heq, hrecords, hregistry⟩ |
    ⟨e, w₁, found, w₂, hchoose, hfind, hrecords, hregistry, hbare, hsnapshot, heq⟩
  · rw [heq] at hrun
    cases hrun
    rw [hrecords]
    exact ⟨.refl _, hregistry⟩
  · rw [heq] at hrun
    have hrestorable := hgranted e w₁ found w₂ hchoose hfind
    rw [← hrecords] at hsnapshot hw ⊢
    rw [hsnapshot] at hrun hrestorable
    rcases Fallible.bind_eq_error.1 hrun with hfailed | ⟨r, w₃, -, hrest⟩
    · have hstore := store_advances (p := state.id) hc hw hbare.untied repository e state
        found.commit
      obtain ⟨hsame, hkept⟩ := Run.orRestore_failed hw hstore hrestorable hfailed
      exact ⟨hsame, hkept.trans hregistry⟩
    · cases hrest

/-- On a store that refuses nothing the rollback of an analysis is granted. -/
theorem rollbackGranted_of_unrefused (hc : c.Discreet) (hw : w.records.Sound)
    (hfree : w.records.Unrefused) : RollbackGranted c repository state given tools w := by
  intro e w₁ f w₂ hchoose hfind
  have hrecords : w₂.records = w.records :=
    ((find_discreet hc _ _ _).eq hfind).1.trans ((chooseExaminer_discreet _ _ _ _).eq hchoose).1
  obtain ⟨hbare, hsnapshot⟩ := find_eq_ok hfind
  rw [← hrecords] at hw hfree
  rw [hsnapshot]
  exact Run.restorable_of_unrefused hw hfree
    (store_advances hc hw hbare.untied repository e state f.commit)

/-- Whatever becomes of an analysis, it stays within its project. -/
theorem within_runWith (hc : c.Discreet) (repository : Path) (state : ProjectState)
    (given : Option Examiner) (tools : Tooling) (hw : w.records.Sound) :
    Workspace.Within state.id w ((runWith c repository state given tools).run w).2 := by
  rcases runWith_cases c repository state given tools w hc with
    ⟨f', w₁, heq, hrecords, hregistry⟩ |
    ⟨e, w₁, found, w₂, -, -, hrecords, hregistry, hbare, hsnapshot, heq⟩
  · rw [heq]
    exact .of_eq hw hrecords hregistry
  · have hfound : Workspace.Within state.id w w₂ := .of_eq hw hrecords hregistry
    rw [heq, hsnapshot, ← hrecords]
    have hsound := hfound.records.sound
    have hstore :=
      store_advances (p := state.id) hc hsound hbare.untied repository e state found.commit
    have hwritten := Run.orRestore_advances hsound hstore
    refine hfound.trans (.bind (.of_advances hwritten) fun r w₃ _ h₃ => ?_)
    exact .bind (.publish h₃.records.sound _ _) fun _ w₄ _ h₄ =>
      .of_advances (.refl h₄.records.sound)

/-- Whatever becomes of an analysis, it leaves a sound store in which the other projects are as
they were. -/
theorem records_runWith (hc : c.Discreet) (repository : Path) (state : ProjectState)
    (given : Option Examiner) (tools : Tooling) (hw : w.records.Sound) :
    StoreAccess.Advances state.id w.records
      ((runWith c repository state given tools).run w).2.records :=
  (within_runWith hc repository state given tools hw).records

end FreshAnalysis

end CodeAtlas
