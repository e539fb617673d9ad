import CodeAtlas.Proofs.Sync.Commit

/-!
# How syncs end

No sync fails as a run: its result says how it went. This file proves that a sync whose result
says that it failed has left records, published graphs and the project's anchor as they were.
-/

namespace CodeAtlas

open RecordStore

namespace SyncEngine

variable {σ : Type} {w w' : Workspace σ} {e : SyncEngine σ} {state : ProjectState}

/-- Whether the rollback of a sync is not refused, if the sync fails while it writes. -/
def RollbackGranted (e : SyncEngine σ) (state : ProjectState) (w : Workspace σ) : Prop :=
  ∀ head w₁ t w₂, (e.versionControl.head (Path.ofText state.repoPath)).run w = (.ok head, w₁) →
    (e.stage state head).run w₁ = (.ok t, w₂) →
    Run.Restorable t.snapshot (e.commit state head t) w₂

theorem ensurePublished_spec (state : ProjectState) (w : Workspace σ) :
    ((ensurePublished state : Run σ Unit).run w).2.records = w.records ∧
      ∀ f, ((ensurePublished state : Run σ Unit).run w).1 = .error f →
        ((ensurePublished state : Run σ Unit).run w).2 = w := by
  unfold ensurePublished
  rw [Fallible.run_bind_of_ok (show (get : Run σ (Workspace σ)).run w = (.ok w, w) from rfl)]
  split
  · cases w.registry.reload state with
    | error f => exact ⟨rfl, fun _ _ => rfl⟩
    | ok r => exact ⟨rfl, fun f hf => by cases hf⟩
  · exact ⟨rfl, fun f hf => by cases hf⟩

/-- Staging has written nothing; it has issued ids for the added units. -/
theorem stage_advances (he : e.collaborators.Discreet) (hw : w.records.Sound) {head : String}
    {t : Staged} (hstage : (e.stage state head).run w = (.ok t, w')) :
    w'.records.store = w.records.store ∧
      w.records.issued + t.draft.plan.added.length ≤ w'.records.issued ∧
      StoreAccess.Advances state.id w.records w'.records := by
  obtain ⟨-, hrecords, -⟩ := stage_eq_ok he hstage
  have hstore : w'.records.store = w.records.store := by rw [hrecords]
  have hissued : w.records.issued + t.draft.plan.added.length ≤ w'.records.issued := by
    rw [hrecords]
    exact Nat.le_add_right _ _
  exact ⟨hstore, hissued, .of_store_eq hw hstore (by omega) (by rw [hrecords])⟩

/-- An advancing sync that fails has changed no answer of the store, if its rollback is not
refused. -/
theorem advance_failed (he : e.collaborators.Discreet) (hw : w.records.Sound) {head : String}
    (hgranted : ∀ t w₁, (e.stage state head).run w = (.ok t, w₁) →
      Run.Restorable t.snapshot (e.commit state head t) w₁) {f : Failure}
    (hrun : (e.advance state head).run w = (.error f, w')) :
    SameAnswers w.records.store w'.records.store ∧ w'.registry = w.registry := by
  unfold advance at hrun
  rcases Fallible.bind_eq_error.1 hrun with hstage | ⟨t, w₁, hstage, hrun⟩
  · obtain ⟨hrecords, hregistry⟩ := stage_eq_error he hstage
    rw [hrecords]
    exact ⟨.refl _, hregistry⟩
  · obtain ⟨hfits, -, hregistry⟩ := stage_eq_ok he hstage
    obtain ⟨hstore, hissued, haw⟩ := stage_advances he hw hstage
    have hrestorable := hgranted t w₁ hstage
    have hsnapshot := hfits.snapshot
    rw [← hstore] at hsnapshot
    rcases Fallible.bind_eq_error.1 hrun with hfailed | ⟨r, w₂, -, hrest⟩
    · rw [hsnapshot] at hrestorable hfailed
      have hcommit := commit_advances he state haw hfits hw hstore hissued
      obtain ⟨hsame, hkept⟩ := Run.orRestore_failed haw.sound hcommit hrestorable hfailed
      rw [← hstore]
      exact ⟨hsame, hkept.trans hregistry⟩
    · cases hrest

/-- Whatever becomes of an advancing sync, it stays within its project. -/
theorem within_advance (he : e.collaborators.Discreet) (hw : w.records.Sound) (head : String) :
    Workspace.Within state.id w ((e.advance state head).run w).2 := by
  have hstaged : Workspace.Within state.id w ((e.stage state head).run w).2 := by
    cases hstage : (e.stage state head).run w with
    | mk o w₁ =>
      cases o with
      | error f =>
        obtain ⟨hrecords, hregistry⟩ := stage_eq_error he hstage
        exact .of_eq hw hrecords hregistry
      | ok t =>
        obtain ⟨-, -, hregistry⟩ := stage_eq_ok he hstage
        exact .of_advances ⟨(stage_advances he hw hstage).2.2, hregistry⟩
  unfold advance
  refine .bind hstaged fun t w₁ hstage _ => ?_
  obtain ⟨hfits, -, -⟩ := stage_eq_ok he hstage
  obtain ⟨hstore, hissued, haw⟩ := stage_advances he hw hstage
  have hcommit := commit_advances he state haw hfits hw hstore hissued
  have hwritten := Run.orRestore_advances haw.sound hcommit
  rw [hfits.snapshot, ← hstore]
  refine .bind (.of_advances hwritten) fun r w₂ _ h₂ => ?_
  exact .bind (.publish h₂.records.sound _ _) fun _ w₃ _ h₃ => .of_advances (.refl h₃.records.sound)

/-- The head of a repository is found without touching records and published graphs. -/
theorem head_eq (he : e.collaborators.Discreet) {repository : Path} {o : Outcome String}
    (h : (e.versionControl.head repository).run w = (o, w')) :
    w'.records = w.records ∧ w'.registry = w.registry :=
  ((he.versionControl e.versionControl rfl).head repository).eq h

/-- An attempt that fails has changed no answer of the store, if its rollback is not refused. -/
theorem attemptSync_failed (he : e.collaborators.Discreet) (hw : w.records.Sound)
    (hgranted : e.RollbackGranted state w) {f : Failure}
    (hrun : (e.attemptSync state).run w = (.error f, w')) :
    SameAnswers w.records.store w'.records.store ∧ w'.registry = w.registry := by
  unfold attemptSync at hrun
  rcases Fallible.bind_eq_error.1 hrun with hhead | ⟨head, w₁, hhead, hrun⟩
  · obtain ⟨hrecords, hregistry⟩ := head_eq he hhead
    rw [hrecords]
    exact ⟨.refl _, hregistry⟩
  · obtain ⟨hrecords, hregistry⟩ := head_eq he hhead
    split at hrun
    · rcases Fallible.bind_eq_error.1 hrun with hfailed | ⟨u, w₂, -, hrest⟩
      · have hspec := (ensurePublished_spec state w₁).2 f
        rw [hfailed] at hspec
        rw [show w' = w₁ from hspec rfl, hrecords]
        exact ⟨.refl _, hregistry⟩
      · cases hrest
    · obtain ⟨hsame, hkept⟩ := advance_failed he (hrecords ▸ hw)
        (fun t w₂ hstage => hgranted head w₁ t w₂ hhead hstage) hrun
      rw [hrecords] at hsame
      exact ⟨hsame, hkept.trans hregistry⟩

/-- An advancing sync that succeeds has staged, committed and published. -/
theorem advance_eq_ok {head : String} {r : SyncResult}
    (hrun : (e.advance state head).run w = (.ok r, w')) :
    ∃ t w₁ g counts advanced w₂, (e.stage state head).run w = (.ok t, w₁) ∧
      (e.commit state head t).run w₁ = (.ok (g, counts, advanced), w₂) ∧
      r = ⟨.completed, state.name, some head, t.draft.plan, counts, t.diff.full, none, none,
        advanced⟩ ∧
      w' = { w₂ with registry := w₂.registry.put state.id state.name g } := by
  unfold advance at hrun
  obtain ⟨t, w₁, hstage, hrun⟩ := Fallible.bind_eq_ok.1 hrun
  obtain ⟨⟨g, counts, advanced⟩, w₂, hcommit, hrun⟩ := Fallible.bind_eq_ok.1 hrun
  obtain ⟨_, w₃, hpublish, hrun⟩ := Fallible.bind_eq_ok.1 hrun
  cases hpublish
  cases hrun
  exact ⟨t, w₁, g, counts, advanced, w₂, hstage, Run.orRestore_eq_ok hcommit, rfl, rfl⟩

/-- An attempt that succeeds has found the project up to date, and then published its saved graph
if none was published, or it has advanced the project. -/
theorem attemptSync_eq_ok {r : SyncResult} (hrun : (e.attemptSync state).run w = (.ok r, w')) :
    ∃ head w₁, (e.versionControl.head (Path.ofText state.repoPath)).run w = (.ok head, w₁) ∧
      ((r = .skipped state head ∧ ((ensurePublished state : Run σ Unit).run w₁).2 = w') ∨
        (state.anchor ≠ some head ∧ (e.advance state head).run w₁ = (.ok r, w'))) := by
  unfold attemptSync at hrun
  obtain ⟨head, w₁, hhead, hrun⟩ := Fallible.bind_eq_ok.1 hrun
  refine ⟨head, w₁, hhead, ?_⟩
  split at hrun
  · obtain ⟨_, w₂, hpublished, hrun⟩ := Fallible.bind_eq_ok.1 hrun
    cases hrun
    exact Or.inl ⟨rfl, by rw [hpublished]⟩
  · next hanchor => exact Or.inr ⟨hanchor, hrun⟩

/-- An attempt that succeeds does not say that it failed. -/
theorem status_attemptSync {r : SyncResult} (hrun : (e.attemptSync state).run w = (.ok r, w')) :
    r.status = .skipped ∨ r.status = .completed := by
  obtain ⟨head, w₁, -, ⟨rfl, -⟩ | ⟨-, hadvance⟩⟩ := attemptSync_eq_ok hrun
  · exact Or.inl rfl
  · obtain ⟨t, w₂, g, counts, advanced, w₃, -, -, rfl, -⟩ := advance_eq_ok hadvance
    exact Or.inr rfl

/-- A saved graph is published for the project that it is of. -/
theorem within_ensurePublished (state : ProjectState) (hw : w.records.Sound) :
    Workspace.Within state.id w ((ensurePublished state : Run σ Unit).run w).2 := by
  refine ⟨?_, fun q hq => ?_⟩
  · rw [(ensurePublished_spec state w).1]
    exact .refl hw
  unfold ensurePublished
  rw [Fallible.run_bind_of_ok (show (get : Run σ (Workspace σ)).run w = (.ok w, w) from rfl)]
  split
  · cases hreload : w.registry.reload state with
    | error f => rfl
    | ok r => exact Registry.entries_reload_of_ne hreload hq
  · rfl

theorem within_attemptSync (he : e.collaborators.Discreet) (state : ProjectState)
    (hw : w.records.Sound) : Workspace.Within state.id w ((e.attemptSync state).run w).2 := by
  have hhead := (he.versionControl e.versionControl rfl).head (Path.ofText state.repoPath)
  unfold attemptSync
  refine .bind (.of_advances (.of_discreet hhead hw)) fun head w₁ _ h₁ => ?_
  have hsound := h₁.records.sound
  split
  · exact .bind (within_ensurePublished state hsound) fun _ w₂ _ h₂ =>
      .of_advances (.refl h₂.records.sound)
  · exact within_advance he hsound head

/-- On a store that refuses nothing the rollback of a sync is granted. -/
theorem rollbackGranted_of_unrefused (he : e.collaborators.Discreet) (hw : w.records.Sound)
    (hfree : w.records.Unrefused) : e.RollbackGranted state w := by
  intro head w₁ t w₂ hhead hstage
  have hkept := (head_eq he hhead).1
  rw [← hkept] at hw hfree
  obtain ⟨hfits, -, -⟩ := stage_eq_ok he hstage
  obtain ⟨hstore, hissued, haw⟩ := stage_advances he hw hstage
  rw [hfits.snapshot, ← hstore]
  exact Run.restorable_of_unrefused haw.sound (haw.refusal.trans hfree)
    (commit_advances he state haw hfits hw hstore hissued)

/-! ## Results -/

/-- The workspace in which a project is being synced. -/
def held (state : ProjectState) (w : Workspace σ) : Workspace σ :=
  { w with syncing := w.syncing ++ [state.id] }

/-- The workspace in which a project is no longer being synced. -/
def released (state : ProjectState) (w : Workspace σ) : Workspace σ :=
  { w with syncing := w.syncing.erase state.id }

/-- The workspace after the state of a failed sync was to be kept. -/
def afterFailure (e : SyncEngine σ) (state : ProjectState) (f : Failure) (w : Workspace σ) :
    Workspace σ :=
  ((Run.attempt (FreshAnalysis.persistState e.collaborators (state.failed f.text))).run w).2

theorem syncUnlocked_eq (e : SyncEngine σ) (state : ProjectState) (w : Workspace σ) :
    (e.syncUnlocked state).run w =
      match (e.attemptSync state).run w with
      | (.ok r, w₁) => (.ok r, w₁)
      | (.error f, w₁) =>
        (.ok (.failed (state.failed f.text) f.text .syncFailed), e.afterFailure state f w₁) := by
  unfold syncUnlocked
  rw [Fallible.run_bind_of_ok (Run.run_attempt _ w)]
  cases (e.attemptSync state).run w with
  | mk o w₁ =>
    cases o with
    | ok r => rfl
    | error f => rfl

/-- No sync fails as a run: one that is under way already is refused, and every failure is part
of the result. -/
theorem sync_eq (e : SyncEngine σ) (state : ProjectState) (w : Workspace σ) :
    (e.sync state).run w =
      if w.syncing.contains state.id then
        (.ok (.failed state ("A sync of " ++ state.name ++ " is already in progress")
          .syncAnomaly), w)
      else
        match (e.attemptSync state).run (held state w) with
        | (.ok r, w₁) => (.ok r, released state w₁)
        | (.error f, w₁) =>
          (.ok (.failed (state.failed f.text) f.text .syncFailed),
            released state (e.afterFailure state f w₁)) := by
  unfold sync
  rw [Fallible.run_bind_of_ok (show (get : Run σ (Workspace σ)).run w = (.ok w, w) from rfl)]
  split
  · rfl
  · rw [Fallible.run_bind_of_ok
      (show (modify fun w => { w with syncing := w.syncing ++ [state.id] } : Run σ Unit).run w =
        (.ok PUnit.unit, held state w) from rfl)]
    rw [Fallible.run_bind, syncUnlocked_eq]
    cases (e.attemptSync state).run (held state w) with
    | mk o w₁ =>
      cases o with
      | ok r => rfl
      | error f => rfl

/-- A sync that has a result was refused, has failed in its attempt, or has succeeded in it. -/
theorem sync_eq_ok {r : SyncResult} (hrun : (e.sync state).run w = (.ok r, w')) :
    (r = .failed state ("A sync of " ++ state.name ++ " is already in progress") .syncAnomaly ∧
        w' = w) ∨
      (∃ f w₁, (e.attemptSync state).run (held state w) = (.error f, w₁) ∧
        r = .failed (state.failed f.text) f.text .syncFailed ∧
        w' = released state (e.afterFailure state f w₁)) ∨
      ∃ w₁, (e.attemptSync state).run (held state w) = (.ok r, w₁) ∧ w' = released state w₁ := by
  rw [sync_eq] at hrun
  split at hrun
  · cases hrun
    exact Or.inl ⟨rfl, rfl⟩
  · cases hattempt : (e.attemptSync state).run (held state w) with
    | mk o w₁ =>
      rw [hattempt] at hrun
      cases o with
      | error f =>
        cases hrun
        exact Or.inr (Or.inl ⟨f, w₁, rfl, rfl, rfl⟩)
      | ok r' =>
        cases hrun
        exact Or.inr (Or.inr ⟨w₁, rfl, rfl⟩)

theorem afterFailure_eq (he : e.collaborators.Discreet) (state : ProjectState) (f : Failure)
    (w : Workspace σ) :
    (e.afterFailure state f w).records = w.records ∧
      (e.afterFailure state f w).registry = w.registry :=
  (FreshAnalysis.persistState_discreet he (state.failed f.text)).attempt.eq rfl

/-- A sync always has a result. If that says that the sync failed, and its rollback was not
refused, then no answer of the store and no published graph has changed, and at most the status
and the error text of the project's state have. -/
theorem sync_failed (he : e.collaborators.Discreet) (hw : w.records.Sound) :
    ∃ r w', (e.sync state).run w = (.ok r, w') ∧
      (r.status = .failed →
        (e.RollbackGranted state (held state w) →
          SameAnswers w.records.store w'.records.store ∧ w'.registry = w.registry) ∧
        (r.state = state ∨
          ∃ text, r.state = { state with status := .error, error := some text })) := by
  rw [sync_eq]
  split
  · exact ⟨_, w, rfl, fun _ => ⟨fun _ => ⟨.refl _, rfl⟩, Or.inl rfl⟩⟩
  · cases hrun : (e.attemptSync state).run (held state w) with
    | mk o w₁ =>
      cases o with
      | ok r =>
        refine ⟨r, _, rfl, fun hfailed => ?_⟩
        rcases status_attemptSync hrun with h | h
        · rw [h] at hfailed
          cases hfailed
        · rw [h] at hfailed
          cases hfailed
      | error f =>
        refine ⟨_, _, rfl, fun _ => ⟨fun hgranted => ?_, Or.inr ⟨f.text, rfl⟩⟩⟩
        obtain ⟨hsame, hkept⟩ := attemptSync_failed (w := held state w) he hw hgranted hrun
        obtain ⟨hrecords, hregistry⟩ := afterFailure_eq he state f w₁
        refine ⟨?_, hregistry.trans hkept⟩
        change SameAnswers w.records.store (e.afterFailure state f w₁).records.store
        rw [hrecords]
        exact hsame

/-- A completed sync has staged, committed and published. -/
theorem sync_completed {r : SyncResult}
    (hrun : (e.sync state).run w = (.ok r, w')) (hdone : r.status = .completed) :
    ∃ head w₁ t w₂ g counts advanced w₃,
      (e.versionControl.head (Path.ofText state.repoPath)).run (held state w) = (.ok head, w₁) ∧
      state.anchor ≠ some head ∧
      (e.stage state head).run w₁ = (.ok t, w₂) ∧
      (e.commit state head t).run w₂ = (.ok (g, counts, advanced), w₃) ∧
      r = ⟨.completed, state.name, some head, t.draft.plan, counts, t.diff.full, none, none,
        advanced⟩ ∧
      w' = released state { w₃ with registry := w₃.registry.put state.id state.name g } := by
  obtain ⟨rfl, -⟩ | ⟨f, w₁, -, rfl, -⟩ | ⟨w₁, hattempt, rfl⟩ := sync_eq_ok hrun
  · cases hdone
  · cases hdone
  obtain ⟨head, w₂, hhead, ⟨rfl, -⟩ | ⟨hanchor, hadvance⟩⟩ := attemptSync_eq_ok hattempt
  · cases hdone
  obtain ⟨t, w₃, g, counts, advanced, w₄, hstage, hcommit, hresult, rfl⟩ :=
    advance_eq_ok hadvance
  exact ⟨head, w₂, t, w₃, g, counts, advanced, w₄, hhead, hanchor, hstage, hcommit, hresult, rfl⟩

/-- A saved graph is published only in place of none. -/
theorem registry_ensurePublished (state : ProjectState) (w : Workspace σ) {g : Graph}
    (hg : ((ensurePublished state : Run σ Unit).run w).2.registry.get? state.id = some g) :
    w.registry.get? state.id = some g ∨
      ∃ text, state.graphText = some text ∧ Graph.ofText text = .ok g := by
  unfold ensurePublished at hg
  rw [Fallible.run_bind_of_ok (show (get : Run σ (Workspace σ)).run w = (.ok w, w) from rfl)] at hg
  split at hg
  · cases hreload : w.registry.reload state with
    | error f =>
      rw [hreload] at hg
      exact Or.inl hg
    | ok r =>
      rw [hreload] at hg
      exact Registry.get?_reload hreload hg
  · exact Or.inl hg

/-- A sync that is not completed changes no answer of the store, if its rollback is not refused,
and publishes at most the saved graph. -/
theorem sync_uncompleted (he : e.collaborators.Discreet) (hw : w.records.Sound) {r : SyncResult}
    (hrun : (e.sync state).run w = (.ok r, w')) (hleft : r.status ≠ .completed)
    (hgranted : r.status = .failed → e.RollbackGranted state (held state w)) :
    SameAnswers w.records.store w'.records.store ∧
      ∀ g, w'.registry.get? state.id = some g → w.registry.get? state.id = some g ∨
        ∃ text, state.graphText = some text ∧ Graph.ofText text = .ok g := by
  obtain ⟨rfl, rfl⟩ | ⟨f, w₁, hattempt, rfl, rfl⟩ | ⟨w₁, hattempt, rfl⟩ := sync_eq_ok hrun
  · exact ⟨.refl _, fun g hg => Or.inl hg⟩
  · obtain ⟨hsame, hkept⟩ := attemptSync_failed (w := held state w) he hw (hgranted rfl) hattempt
    obtain ⟨hrecords, hregistry⟩ := afterFailure_eq he state f w₁
    refine ⟨?_, fun g hg => Or.inl ?_⟩
    · change SameAnswers w.records.store (e.afterFailure state f w₁).records.store
      rw [hrecords]
      exact hsame
    · change (e.afterFailure state f w₁).registry.get? state.id = some g at hg
      rw [hregistry, hkept] at hg
      exact hg
  obtain ⟨head, w₂, hhead, ⟨rfl, rfl⟩ | ⟨-, hadvance⟩⟩ := attemptSync_eq_ok hattempt
  · obtain ⟨hrecords, hregistry⟩ := head_eq he hhead
    refine ⟨?_, fun g hg => ?_⟩
    · change SameAnswers w.records.store
        ((ensurePublished state : Run σ Unit).run w₂).2.records.store
      rw [(ensurePublished_spec state w₂).1, hrecords]
      exact .refl _
    · have hsaved := registry_ensurePublished state w₂ hg
      rwa [hregistry] at hsaved
  · obtain ⟨t, w₃, g, counts, advanced, w₄, -, -, rfl, -⟩ := advance_eq_ok hadvance
    exact absurd rfl hleft

/-- A sync that is not completed leaves the project where it is, but for its status and its error
text. -/
theorem state_of_uncompleted {r : SyncResult} (hrun : (e.sync state).run w = (.ok r, w'))
    (hleft : r.status ≠ .completed) :
    r.state = state ∨ ∃ text, r.state = { state with status := .error, error := some text } := by
  obtain ⟨rfl, -⟩ | ⟨f, w₁, -, rfl, -⟩ | ⟨w₁, hattempt, -⟩ := sync_eq_ok hrun
  · exact Or.inl rfl
  · exact Or.inr ⟨f.text, rfl⟩
  obtain ⟨head, w₂, -, ⟨rfl, -⟩ | ⟨-, hadvance⟩⟩ := attemptSync_eq_ok hattempt
  · exact Or.inl rfl
  · obtain ⟨t, w₃, g, counts, advanced, w₄, -, -, rfl, -⟩ := advance_eq_ok hadvance
    exact absurd rfl hleft

/-- Whatever becomes of a sync, it stays within its project. -/
theorem within_sync (he : e.collaborators.Discreet) (state : ProjectState)
    (hw : w.records.Sound) : Workspace.Within state.id w ((e.sync state).run w).2 := by
  rw [sync_eq]
  split
  · exact .of_eq hw rfl rfl
  · have hheld : Workspace.Within state.id w (held state w) := .of_eq hw rfl rfl
    have hattempt := hheld.trans (within_attemptSync he state hheld.records.sound)
    cases hrun : (e.attemptSync state).run (held state w) with
    | mk o w₁ =>
      rw [hrun] at hattempt
      have hsound : w₁.records.Sound := hattempt.records.sound
      cases o with
      | ok r => exact hattempt.trans (.of_eq hsound rfl rfl)
      | error f =>
        obtain ⟨hrecords, hregistry⟩ := afterFailure_eq he state f w₁
        exact hattempt.trans (.of_eq hsound hrecords hregistry)

/-- Whatever becomes of a sync, it leaves a sound store in which the other projects are as they
were. -/
theorem records_sync (he : e.collaborators.Discreet) (state : ProjectState)
    (hw : w.records.Sound) :
    StoreAccess.Advances state.id w.records ((e.sync state).run w).2.records :=
  (within_sync he state hw).records

end SyncEngine

end CodeAtlas
