import CodeAtlas.CommandLine.Run
import CodeAtlas.Proofs.Run.Saving

/-!
# Sessions

A session is a run that may also end early with an exit code. This file takes sequences of its
steps apart, says which steps leave the files and the records alone, and carries over to sessions
what is known of runs that save a state at their end.
-/

namespace CodeAtlas.CommandLine

open Fallible

variable {α β : Type} {w w' : Workspace Console}

namespace Session

variable {x : Session α} {f : α → Session β}

/-- The second step of a sequence is taken where the first one neither fails nor ends the
session. -/
theorem run_bind (x : Session α) (f : α → Session β) (w : Workspace Console) :
    (x >>= f).run.run w =
      match x.run.run w with
      | (.ok (.ok a), w') => (f a).run.run w'
      | (.ok (.error code), w') => (.ok (.error code), w')
      | (.error e, w') => (.error e, w') := by
  change (x.run >>= ExceptT.bindCont f).run w = _
  rw [Fallible.run_bind]
  cases x.run.run w with
  | mk o w' =>
    cases o with
    | error e => rfl
    | ok r => cases r <;> rfl

theorem run_bind_of_ok {a : α} (h : x.run.run w = (.ok (.ok a), w')) :
    (x >>= f).run.run w = (f a).run.run w' := by
  rw [run_bind, h]

/-- What follows upon a look at the files gets them as they are. -/
theorem run_files_bind (f : FileTree → Session β) (w : Workspace Console) :
    (files >>= f).run.run w = (f w.files).run.run w := rfl

/-! ## Steps that leave files and records alone -/

/-- The files, as long as nothing is going to vanish from them, and the records. -/
def scene (w : Workspace Console) : Option FileTree × StoreAccess := (Run.ground w, w.records)

/-- Steps that leave the files and the records alone, and that end a session early only with an
exit code that tells of an error. -/
structure Quiet (x : Session α) : Prop where
  spares : Keeps scene x.run
  blames : ∀ w code w', x.run.run w = (.ok (.error code), w') → code ≠ 0

theorem Quiet.ground (hx : Quiet x) : Keeps Run.ground x.run :=
  fun w => (Prod.mk.inj (hx.spares w)).1

theorem Quiet.eq (hx : Quiet x) {o : Outcome (Except Nat α)} (hrun : x.run.run w = (o, w')) :
    Run.ground w' = Run.ground w ∧ w'.records = w.records :=
  Prod.mk.inj (hx.spares.eq hrun)

theorem Quiet.bind (hx : Quiet x) (hf : ∀ a, Quiet (f a)) : Quiet (x >>= f) where
  spares := by
    refine Keeps.bind hx.spares fun r => ?_
    cases r with
    | ok a => exact (hf a).spares
    | error code => exact .pure _
  blames w code w' hrun := by
    rw [run_bind] at hrun
    split at hrun
    · next a w₁ _ => exact (hf a).blames w₁ code w' hrun
    · next code' w₁ hfirst =>
      cases hrun
      exact hx.blames w code w' hfirst
    · cases hrun

/-- The files that quiet steps leave are those that the first step has left. -/
theorem ground_bind (x : Session α) (hf : ∀ a, Quiet (f a)) (w : Workspace Console) :
    Run.ground ((x >>= f).run.run w).2 = Run.ground (x.run.run w).2 := by
  refine Keeps.run_bind Run.ground x.run (fun r => ?_) w
  cases r with
  | ok a => exact (hf a).ground
  | error code => exact .pure _

theorem ground_andThen (x : Session α) {later : Session Unit} (hlater : Quiet later)
    (w : Workspace Console) :
    Run.ground ((andThen x later).run.run w).2 = Run.ground (x.run.run w).2 := by
  refine (Keeps.run_bind Run.ground (Run.attempt x.run) (fun o => ?_) w).trans rfl
  cases o with
  | ok r => exact Keeps.bind hlater.ground fun _ => .pure _
  | error e => exact Keeps.bind hlater.ground fun _ => .throw _

/-! ## Steps that end a session -/

/-- Whether nothing is done after a step: it fails, or it ends the session. -/
def Stops (x : Session α) : Prop := ∀ w a w', x.run.run w ≠ (.ok (.ok a), w')

theorem Stops.bind (hf : ∀ a, Stops (f a)) : Stops (x >>= f) := by
  intro w b w' hrun
  rw [run_bind] at hrun
  split at hrun
  · next a w₁ _ => exact hf a w₁ b w' hrun
  · cases hrun
  · cases hrun

/-- Whether a session ends with the exit code of success. -/
def Succeeds (r : Except Nat α) : Prop := ∀ code, r = .error code → code = 0

/-- How a session that saves a state at its end may end. -/
def SavesLast (save : ProjectState → Run Console Unit) (fits : ProjectState → RecordStore → Prop)
    (x : Session α) (w : Workspace Console) : Prop :=
  Run.SavesLast save fits Succeeds x.run w

namespace SavesLast

variable {save : ProjectState → Run Console Unit} {fits : ProjectState → RecordStore → Prop}

/-- Nothing is saved before the last step of a sequence. -/
theorem after (hx : Quiet x)
    (hf : ∀ a w', x.run.run w = (.ok (.ok a), w') → SavesLast save fits (f a) w') :
    SavesLast save fits (x >>= f) w := by
  refine Run.SavesLast.after hx.ground fun r w' hrun => ?_
  cases r with
  | ok a => exact hf a w' hrun
  | error code =>
    refine Or.inl ⟨rfl, fun r hr hgood => ?_⟩
    cases hr
    exact hx.blames w code w' hrun (hgood code rfl)

/-- Nothing changes the files after the state has been saved. -/
theorem before (hx : SavesLast save fits x w) (hf : ∀ a, Quiet (f a)) :
    SavesLast save fits (x >>= f) w := by
  refine Run.SavesLast.congr hx (ground_bind x hf w) fun r hr hgood => ?_
  obtain ⟨o, w', ho, hrest⟩ := Fallible.bind_eq_ok.1 (Prod.ext hr rfl)
  refine ⟨o, congrArg Prod.fst ho, ?_⟩
  cases o with
  | ok a => exact nofun
  | error code =>
    cases hrest
    exact fun code' hcode => hgood code' (by cases hcode; rfl)

/-- What is done in any case afterwards leaves the files as they are. -/
theorem andThen {later : Session Unit} (hx : SavesLast save fits x w) (hlater : Quiet later) :
    SavesLast save fits (andThen x later) w := by
  refine Run.SavesLast.congr hx (ground_andThen x hlater w) fun r hr hgood => ⟨r, ?_, hgood⟩
  obtain ⟨o, w', htried, hrest⟩ := Fallible.bind_eq_ok.1 (Prod.ext hr rfl)
  cases o with
  | ok r' =>
    obtain ⟨_, _, -, hend⟩ := Fallible.bind_eq_ok.1 hrest
    cases hend
    exact Except.ok.inj (congrArg Prod.fst htried)
  | error e =>
    obtain ⟨_, _, -, hend⟩ := Fallible.bind_eq_ok.1 hrest
    cases hend

end SavesLast

end Session

namespace Command

open Session

end Command

end CodeAtlas.CommandLine
