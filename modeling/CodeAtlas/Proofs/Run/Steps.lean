import CodeAtlas.Collaborators

/-!
# Steps of runs

A run is a sequence of steps each of which may fail; what it changed before stays changed. This
file takes such sequences apart, and says which steps leave the records and the published
graphs alone: all that look at files, ask programs of the host, or read the store.
-/

namespace CodeAtlas

/-! ## Sequences -/

/-- Steps that do the same at each item of a list do the same with the list. -/
theorem mapM_congr {m : Type → Type} [Monad m] [LawfulMonad m] {α β : Type} {f g : α → m β}
    {xs : List α} (h : ∀ a ∈ xs, f a = g a) : xs.mapM f = xs.mapM g := by
  induction xs with
  | nil => rfl
  | cons a rest ih =>
    rw [List.mapM_cons, List.mapM_cons, h a (List.mem_cons_self ..),
      ih fun x hx => h x (List.mem_cons_of_mem _ hx)]

namespace Fallible

variable {ε S α β : Type} {x : ExceptT ε (StateM S) α} {f : α → ExceptT ε (StateM S) β}

/-- The second step runs where the first one succeeds. -/
theorem run_bind (x : ExceptT ε (StateM S) α) (f : α → ExceptT ε (StateM S) β) (s : S) :
    (x >>= f).run s =
      match x.run s with
      | (.ok a, t) => (f a).run t
      | (.error e, t) => (.error e, t) := by
  simp only [bind, ExceptT.bind, ExceptT.run, ExceptT.mk, StateT.bind]
  cases x s with
  | mk o t =>
    cases o with
    | ok a => rfl
    | error e => rfl

theorem run_bind_of_ok {s t : S} {a : α} (h : x.run s = (.ok a, t)) :
    (x >>= f).run s = (f a).run t := by
  rw [run_bind, h]

/-- A sequence succeeds exactly if both of its steps do. -/
theorem bind_eq_ok {s u : S} {b : β} :
    (x >>= f).run s = (.ok b, u) ↔
      ∃ a t, x.run s = (.ok a, t) ∧ (f a).run t = (.ok b, u) := by
  rw [run_bind]
  constructor
  · intro h
    split at h
    · next a t hx => exact ⟨a, t, hx, h⟩
    · cases h
  · rintro ⟨a, t, hx, h⟩
    rw [hx]
    exact h

/-- A step of whose result something is known has succeeded. -/
theorem exists_eq_ok {γ : Type} {f : α → γ} {b : γ} {s : S}
    (h : (x.run s).1.toOption.map f = some b) : ∃ a t, x.run s = (.ok a, t) ∧ f a = b := by
  cases hx : x.run s with
  | mk o t =>
    rw [hx] at h
    cases o with
    | ok a => exact ⟨a, t, rfl, Option.some.inj h⟩
    | error e => cases h

/-- A sequence fails exactly if one of its steps does. -/
theorem bind_eq_error {s u : S} {e : ε} :
    (x >>= f).run s = (.error e, u) ↔
      x.run s = (.error e, u) ∨ ∃ a t, x.run s = (.ok a, t) ∧ (f a).run t = (.error e, u) := by
  rw [run_bind]
  constructor
  · intro h
    split at h
    · next a t hx => exact Or.inr ⟨a, t, hx, h⟩
    · next e' t hx =>
      cases h
      exact Or.inl hx
  · rintro (hx | ⟨a, t, hx, h⟩)
    · rw [hx]
    · rw [hx]
      exact h

/-- The state after a sequence has a property that the first step brings about and the second,
if it is taken, preserves. -/
theorem snd_run_bind {Q : S → Prop} {s : S} (hx : Q (x.run s).2)
    (hf : ∀ a t, x.run s = (.ok a, t) → Q t → Q ((f a).run t).2) : Q ((x >>= f).run s).2 := by
  rw [run_bind]
  cases hrun : x.run s with
  | mk o t =>
    rw [hrun] at hx
    cases o with
    | ok a => exact hf a t hrun hx
    | error e => exact hx

/-- Whether a step leaves part of the state as it is, however it ends. -/
def Keeps {γ : Type} (part : S → γ) (x : ExceptT ε (StateM S) α) : Prop :=
  ∀ s, part (x.run s).2 = part s

variable {γ : Type} {part : S → γ}

theorem Keeps.eq (h : Keeps part x) {s t : S} {o : Except ε α} (hx : x.run s = (o, t)) :
    part t = part s := by
  rw [← h s, hx]

theorem Keeps.pure (a : α) : Keeps part (pure a : ExceptT ε (StateM S) α) := fun _ => rfl

theorem Keeps.throw (e : ε) : Keeps part (throw e : ExceptT ε (StateM S) α) := fun _ => rfl

theorem Keeps.bind (hx : Keeps part x) (hf : ∀ a, Keeps part (f a)) : Keeps part (x >>= f) :=
  fun s => snd_run_bind (hx s) fun a t _ ht => (hf a t).trans ht

/-- A loop whose steps leave a part alone leaves it alone. -/
theorem Keeps.mapM (hf : ∀ a, Keeps part (f a)) (xs : List α) :
    Keeps part (xs.mapM f) := by
  induction xs with
  | nil => exact .pure _
  | cons a rest ih =>
    rw [List.mapM_cons]
    exact (hf a).bind fun b => ih.bind fun bs => .pure _

/-- Whether all results of a step that succeeds have a property. -/
def Ensures (P : α → Prop) (x : ExceptT ε (StateM S) α) : Prop :=
  ∀ s a t, x.run s = (.ok a, t) → P a

variable {P : α → Prop} {Q : β → Prop}

theorem Ensures.mono {P' : α → Prop} (hx : Ensures P x) (h : ∀ a, P a → P' a) : Ensures P' x :=
  fun s a t hrun => h a (hx s a t hrun)

theorem Ensures.pure {a : α} (ha : P a) : Ensures P (pure a : ExceptT ε (StateM S) α) := by
  intro s b t hrun
  cases hrun
  exact ha

theorem Ensures.trivial (x : ExceptT ε (StateM S) α) : Ensures (fun _ => True) x :=
  fun _ _ _ _ => True.intro

theorem Ensures.bind (hx : Ensures P x) (hf : ∀ a, P a → Ensures Q (f a)) :
    Ensures Q (x >>= f) := by
  intro s b u hrun
  obtain ⟨a, t, ha, hb⟩ := bind_eq_ok.1 hrun
  exact hf a (hx s a t ha) t b u hb

end Fallible

/-! ## Steps that change neither records nor published graphs -/

namespace Run

open Fallible

variable {σ α β : Type} {x : Run σ α}

/-- The records and the published graphs. -/
def ledger (w : Workspace σ) : StoreAccess × Registry := (w.records, w.registry)

/-- Whether a step leaves the records and the published graphs alone, however it ends. -/
def Discreet (x : Run σ α) : Prop := Keeps ledger x

theorem Discreet.eq (h : Discreet x) {w w' : Workspace σ} {o : Outcome α}
    (hx : x.run w = (o, w')) : w'.records = w.records ∧ w'.registry = w.registry :=
  Prod.mk.inj (Keeps.eq h hx)

theorem Discreet.bind {f : α → Run σ β} (hx : Discreet x) (hf : ∀ a, Discreet (f a)) :
    Discreet (x >>= f) :=
  Keeps.bind hx hf

theorem discreet_pure (a : α) : Discreet (pure a : Run σ α) := Keeps.pure a

theorem discreet_throw (f : Failure) : Discreet (throw f : Run σ α) := Keeps.throw f

theorem discreet_ofOutcome (o : Outcome α) : Discreet (ofOutcome o : Run σ α) := fun _ => rfl

theorem discreet_files : Discreet (files : Run σ FileTree) := fun _ => rfl

/-- What follows upon a look at the files gets them as they are. -/
theorem run_files_bind (f : FileTree → Run σ α) (w : Workspace σ) :
    (files >>= f).run w = (f w.files).run w := rfl

theorem discreet_store : Discreet (store : Run σ RecordStore) := fun _ => rfl

theorem discreet_examine (x : Examining α) : Discreet (examine x : Run σ α) := fun _ => rfl

theorem discreet_findByProject (p : String) :
    Discreet (findByProject p : Run σ (List ClassRecord)) := fun _ => rfl

theorem discreet_takeSnapshot (p : String) : Discreet (takeSnapshot p : Run σ Snapshot) :=
  (discreet_findByProject p).bind fun _ => discreet_store.bind fun _ => discreet_pure _

theorem ensures_ofOutcome {P : α → Prop} {o : Outcome α} (h : ∀ a, o = .ok a → P a) :
    Ensures P (ofOutcome o : Run σ α) := by
  intro w a w' hrun
  exact h a (Prod.mk.inj hrun).1

/-- A session changes nothing about what a computation may give. -/
theorem ensures_inSession {P : α → Prop} (hx : Ensures P x) : Ensures P (Run.inSession x) := by
  intro w a w' hrun
  unfold Run.inSession at hrun
  simp only [ExceptT.run, ExceptT.mk] at hrun
  split at hrun
  · exact hx w a w' hrun
  · exact hx _ a _ (Prod.ext (Prod.mk.inj hrun).1 rfl)

/-- A session begins with the records as they are. -/
theorem inSession_eq_ok {w w' : Workspace σ} {a : α}
    (h : (Run.inSession x).run w = (.ok a, w')) :
    ∃ w₁ w₂, w₁.records = w.records ∧ w₁.files = w.files ∧ w₁.vanishing = w.vanishing ∧
      x.run w₁ = (.ok a, w₂) := by
  unfold Run.inSession at h
  simp only [ExceptT.run, ExceptT.mk] at h
  split at h
  · exact ⟨w, w', rfl, rfl, rfl, h⟩
  · exact ⟨{ w with examiner := { w.examiner with session := some .fresh } }, _, rfl, rfl, rfl,
      Prod.ext (Prod.mk.inj h).1 rfl⟩

theorem ensures_examine {P : α → Prop} {y : Examining α} (hy : Ensures P y) :
    Ensures P (examine y : Run σ α) := by
  intro w a w' hrun
  exact hy w.examiner a _ (Prod.ext (Prod.mk.inj hrun).1 rfl)

theorem Discreet.attempt (hx : Discreet x) : Discreet (Run.attempt x) := fun w => hx w

theorem Discreet.inSession (hx : Discreet x) : Discreet (Run.inSession x) := by
  intro w
  unfold Run.inSession
  simp only [ExceptT.run, ExceptT.mk]
  split
  · exact hx w
  · exact hx { w with examiner := { w.examiner with session := some .fresh } }

/-- A snapshot holds the records as they are. -/
theorem takeSnapshot_eq_ok {p : String} {w w' : Workspace σ} {snap : Snapshot}
    (h : (takeSnapshot p : Run σ Snapshot).run w = (.ok snap, w')) :
    snap = Snapshot.take w.records.store p := by
  cases h
  rfl

end Run

namespace Examining

open Fallible

variable {α : Type} {P : α → Prop} {x : Examining α}

theorem ensures_ofOutcome {o : Outcome α} (h : ∀ a, o = .ok a → P a) :
    Ensures P (Examining.ofOutcome o) := by
  intro s a t hrun
  exact h a (Prod.mk.inj hrun).1

/-- An attempt never fails. -/
theorem run_attempt (x : Examining α) (s : ExaminerState) :
    x.attempt.run s = (.ok (x.run s).1, (x.run s).2) := rfl

/-- What an attempt gives is what the computation gives, if that succeeds. -/
theorem ensures_attempt (hx : Ensures P x) :
    Ensures (fun o => ∀ a, o = .ok a → P a) x.attempt := by
  intro s o t hrun a ho
  have hfst : (x.run s).1 = o := Except.ok.inj (Prod.mk.inj hrun).1
  exact hx s a _ (Prod.ext (hfst.trans ho) rfl)

theorem ensures_inSession (hx : Ensures P x) : Ensures P (Examining.inSession x) := by
  intro s a t hrun
  unfold Examining.inSession at hrun
  simp only [ExceptT.run, ExceptT.mk] at hrun
  split at hrun
  · exact hx s a t hrun
  · exact hx _ a _ (Prod.ext (Prod.mk.inj hrun).1 rfl)

end Examining

/-! ## Attempts and rollbacks -/

namespace Run

open Fallible

variable {σ α : Type} {x : Run σ α}

/-- An attempt never fails. -/
theorem run_attempt (x : Run σ α) (w : Workspace σ) :
    (attempt x).run w = (.ok (x.run w).1, (x.run w).2) := rfl

/-- Whether the records of a snapshot can be put back whenever a run fails: no call of the
rollback is refused. -/
def Restorable (snap : Snapshot) (x : Run σ α) (w : Workspace σ) : Prop :=
  ∀ f w', x.run w = (.error f, w') → (snap.restore w'.records).1 = .ok ()

theorem orRestore_eq_ok {snap : Snapshot} {w w' : Workspace σ} {a : α}
    (h : (orRestore snap x).run w = (.ok a, w')) : x.run w = (.ok a, w') := by
  unfold orRestore at h
  rw [run_bind_of_ok (run_attempt x w)] at h
  cases hx : x.run w with
  | mk o t =>
    rw [hx] at h
    cases o with
    | ok b => exact h
    | error f => cases h

/-- What fails is passed on after the records have been put back as far as possible. -/
theorem orRestore_eq_error {snap : Snapshot} {w w' : Workspace σ} {f : Failure}
    (h : (orRestore snap x).run w = (.error f, w')) :
    ∃ w₁, x.run w = (.error f, w₁) ∧ w'.records = (snap.restore w₁.records).2 ∧
      w'.registry = w₁.registry := by
  unfold orRestore at h
  rw [run_bind_of_ok (run_attempt x w)] at h
  cases hx : x.run w with
  | mk o t =>
    rw [hx] at h
    cases o with
    | ok b => cases h
    | error e =>
      cases h
      exact ⟨t, rfl, rfl, rfl⟩

end Run

/-! ## Collaborators that keep to themselves -/

/-- Version control that does not touch the records and the published graphs. -/
structure VersionControl.Discreet {σ : Type} (v : VersionControl σ) : Prop where
  head : ∀ repository, Run.Discreet (v.head repository)
  diff : ∀ repository old new, Run.Discreet (v.diff repository old new)

/-- Collaborators none of which touches the records and the published graphs; whatever else
they do, they may fail at any time. -/
structure Collaborators.Discreet {σ : Type} (c : Collaborators σ) : Prop where
  versionControl : ∀ v, c.versionControl = some v → v.Discreet
  enricher : ∀ e, c.enricher = some e → ∀ batch, Run.Discreet (e batch)
  persist : ∀ save, c.persist = some save → ∀ state, Run.Discreet (save state)

/-- Asking an enricher for all units in batches leaves alone what it leaves alone. -/
theorem Enricher.askAll_discreet {σ : Type} {enricher : Enricher σ}
    (h : ∀ batch, Run.Discreet (enricher batch)) (size workers : Int) (units : List UnitRequest) :
    Run.Discreet (enricher.askAll size workers units) := by
  unfold Enricher.askAll
  refine (Run.discreet_ofOutcome _).bind fun batches => ?_
  refine Run.Discreet.bind (Fallible.Keeps.mapM (fun b => ?_) batches) fun _ => Run.discreet_pure _
  exact (h b).attempt.bind fun _ => Run.discreet_pure _

end CodeAtlas
