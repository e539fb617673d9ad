import CodeAtlas.Proofs.Agreement.Analyzed
import CodeAtlas.Proofs.Run.Indexed

/-!
# Runs that save a state at the end

An analysis leaves the files alone until its state is to be kept, and does nothing to them
afterwards. This file proves so, and says what is kept: a state with the text of a graph that
agrees with the records of that moment, all of which have been made by this analysis.
-/

namespace CodeAtlas

open Fallible

variable {σ α β : Type} {w w' : Workspace σ}

/-! ## Steps that leave the files alone -/

/-- A part of the state that later steps leave alone is as the first step leaves it. -/
theorem Fallible.Keeps.run_bind {ε S γ : Type} (part : S → γ) (x : ExceptT ε (StateM S) α)
    {f : α → ExceptT ε (StateM S) β} (hf : ∀ a, Keeps part (f a)) (s : S) :
    part ((x >>= f).run s).2 = part (x.run s).2 :=
  snd_run_bind (Q := fun t => part t = part (x.run s).2) rfl fun a t _ ht => (hf a t).trans ht

namespace Run

/-- The files, as long as nothing is going to vanish from them. -/
def ground (w : Workspace σ) : Option FileTree :=
  if w.vanishing = [] then some w.files else none

/-- Looking at the records deletes nothing where nothing is going to vanish. -/
theorem keeps_findByProject (p : String) :
    Keeps ground (findByProject p : Run σ (List ClassRecord)) := by
  intro w
  unfold ground
  by_cases h : w.vanishing = []
  · simp [findByProject, ExceptT.run, ExceptT.mk, h]
  · simp [findByProject, ExceptT.run, ExceptT.mk, h]

theorem keeps_attempt {x : Run σ α} (h : Keeps ground x) : Keeps ground (attempt x) := fun w => h w

theorem keeps_restoreSnapshot (snap : Snapshot) : Keeps ground
    (restoreSnapshot snap : Run σ Unit) :=
  (keeps_findByProject _).bind fun _ => fun _ => rfl

/-- Putting records back after a failure leaves the files as the failure left them. -/
theorem ground_orRestore (snap : Snapshot) (x : Run σ α) (w : Workspace σ) :
    ground ((orRestore snap x).run w).2 = ground (x.run w).2 := by
  unfold orRestore
  refine (Keeps.run_bind ground (attempt x) (fun o => ?_) w).trans rfl
  cases o with
  | ok a => exact .pure a
  | error f => exact (keeps_attempt (keeps_restoreSnapshot snap)).bind fun _ => .throw f

end Run

namespace FreshAnalysis

variable {c : Collaborators σ} {repository : Path} {e : Examiner} {state : ProjectState}

end FreshAnalysis

/-! ## Saving at the end -/

namespace Run

/-- How a run that saves a state at its end may end: either without success and with the files as
they were, or as the saving of a state that fits the records of that moment leaves the files, and
then with success only if the saving succeeded. -/
def SavesLast (save : ProjectState → Run σ Unit) (fits : ProjectState → RecordStore → Prop)
    (good : α → Prop) (x : Run σ α) (w : Workspace σ) : Prop :=
  (ground (x.run w).2 = ground w ∧ ∀ a, (x.run w).1 = .ok a → ¬good a) ∨
    ∃ s w₁, fits s w₁.records.store ∧ ground w₁ = ground w ∧
      ground (x.run w).2 = ground ((save s).run w₁).2 ∧
      ∀ a, (x.run w).1 = .ok a → good a → ((save s).run w₁).1 = .ok ()

namespace SavesLast

variable {save : ProjectState → Run σ Unit} {fits : ProjectState → RecordStore → Prop}
  {good : α → Prop} {fine : β → Prop} {x : Run σ α} {f : α → Run σ β}

theorem mono {fits' : ProjectState → RecordStore → Prop} (h : SavesLast save fits good x w)
    (hfits : ∀ s r, fits s r → fits' s r) : SavesLast save fits' good x w := by
  rcases h with hsame | ⟨s, w₁, hs, hrest⟩
  · exact Or.inl hsame
  · exact Or.inr ⟨s, w₁, hfits s _ hs, hrest⟩

/-- Nothing is saved before the last step of a sequence. -/
theorem after (hx : Keeps ground x)
    (hf : ∀ a w', x.run w = (.ok a, w') → SavesLast save fits fine (f a) w') :
    SavesLast save fits fine (x >>= f) w := by
  unfold SavesLast
  rw [run_bind]
  have hkept := hx w
  cases hrun : x.run w with
  | mk o w' =>
    rw [hrun] at hkept
    cases o with
    | error e => exact Or.inl ⟨hkept, nofun⟩
    | ok a =>
      rcases hf a w' hrun with ⟨hsame, hbad⟩ | ⟨s, w₁, hfits, hsame, hrest⟩
      · exact Or.inl ⟨hsame.trans hkept, hbad⟩
      · exact Or.inr ⟨s, w₁, hfits, hsame.trans hkept, hrest⟩

/-- What leaves the same files behind and succeeds only if the run does may end as the run may. -/
theorem congr {y : Run σ β} (hx : SavesLast save fits good x w)
    (hground : ground (y.run w).2 = ground (x.run w).2)
    (hgood : ∀ b, (y.run w).1 = .ok b → fine b → ∃ a, (x.run w).1 = .ok a ∧ good a) :
    SavesLast save fits fine y w := by
  rcases hx with ⟨hsame, hbad⟩ | ⟨s, w₁, hfits, hsame, hsaved, hdone⟩
  · refine Or.inl ⟨hground.trans hsame, fun b hb hfine => ?_⟩
    obtain ⟨a, ha, hsuccess⟩ := hgood b hb hfine
    exact hbad a ha hsuccess
  · refine Or.inr ⟨s, w₁, hfits, hsame, hground.trans hsaved, fun b hb hfine => ?_⟩
    obtain ⟨a, ha, hsuccess⟩ := hgood b hb hfine
    exact hdone a ha hsuccess

/-- Nothing changes the files after the state has been saved. -/
theorem before (hx : SavesLast save fits good x w) (hf : ∀ a, Keeps ground (f a))
    (hgood : ∀ a w' b, ((f a).run w').1 = .ok b → fine b → good a) :
    SavesLast save fits fine (x >>= f) w := by
  refine hx.congr (Keeps.run_bind ground x hf w) fun b hb hfine => ?_
  obtain ⟨a, w', ha, hrest⟩ := bind_eq_ok.1 (Prod.ext hb rfl)
  exact ⟨a, congrArg Prod.fst ha, hgood a w' b (congrArg Prod.fst hrest) hfine⟩

/-- Putting records back leaves the files as the failure left them. -/
theorem orRestore (snap : Snapshot) (hx : SavesLast save fits good x w) :
    SavesLast save fits good (orRestore snap x) w := by
  refine hx.congr (ground_orRestore snap x w) fun a ha hgood => ⟨a, ?_, hgood⟩
  obtain ⟨o, w', htried, hrest⟩ := bind_eq_ok.1 (Prod.ext ha rfl)
  cases o with
  | ok b =>
    cases hrest
    exact Except.ok.inj (congrArg Prod.fst htried)
  | error f =>
    obtain ⟨_, _, -, hthrown⟩ := bind_eq_ok.1 hrest
    cases hthrown

end SavesLast

end Run

/-! ## What an analysis keeps -/

namespace FreshAnalysis

variable {c : Collaborators σ} {repository : Path} {e : Examiner} {state : ProjectState}
  {p : String} {g h : Graph}

/-- A graph that an analysis has made and the records that it has written: the graph agrees with
the project's records, and all of these are new. -/
structure Renewed (before : StoreAccess) (p : String) (g : Graph) (s : RecordStore) : Prop where
  agrees : g.Agrees s p
  fresh : ∀ r ∈ s.findByProject p, ∃ n, before.issued < n ∧ r.id = StoreAccess.idOfNumber n

/-- A graph that is to be kept and the records of that moment. They fit if the records were sound
before and no write is refused. -/
structure Fits (before : StoreAccess) (p : String) (g : Graph) (s : RecordStore) : Prop where
  wellFormed : g.WellFormed
  indexed : before.store.Indexed → s.Indexed
  renewed : before.Sound → before.Unrefused → Renewed before p g s

end FreshAnalysis

end CodeAtlas
