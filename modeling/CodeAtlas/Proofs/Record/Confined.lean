import CodeAtlas.Proofs.Record.Ownership

/-!
# Writes of one project

A store that runs share issues ids and may refuse writes. This file proves that a step that
writes for one project only, accepted or refused, keeps the store sound and the other
projects as they were, and so do such steps one after the other.
-/

namespace CodeAtlas.StoreAccess

open RecordStore

variable {a b c : StoreAccess} {p : String}

/-- Whether an id has been issued. -/
def Issued (a : StoreAccess) (id : String) : Prop := ∃ k, k ≤ a.issued ∧ id = idOfNumber k

/-- A store as runs leave it: consistent, with no link between projects, and with classes
under issued ids only. -/
structure Sound (a : StoreAccess) : Prop where
  consistent : a.store.Consistent
  inside : a.store.LinksInside
  issued : ∀ id r, a.store.getClass? id = some r → a.Issued id

/-- A write that takes nothing from other projects and gives them nothing. -/
def Confined (p : String) (a : StoreAccess) : StoreWrite → Prop
  | .saveClasses rs =>
    ∀ r ∈ rs, r.project = p ∧ ¬a.store.Foreign p r.id ∧ a.Issued r.id
  | .saveMethods rs => ∀ r ∈ rs, ¬a.store.Foreign p r.classId
  | .saveLinks ls => ∀ l ∈ ls, a.store.Owns p l.classId ∧ a.store.Owns p l.targetId
  | .deleteClasses ids => ∀ id ∈ ids, ¬a.store.Foreign p id
  | .deleteMethodsAndLinks ids => ∀ id ∈ ids, ¬a.store.Foreign p id

/-- What steps of one project come to: a sound store in which the other projects are as they
were. The schedule of refusals stays the same. -/
structure Advances (p : String) (a b : StoreAccess) : Prop where
  sound : b.Sound
  frame : Frame p a.store b.store
  issued : a.issued ≤ b.issued
  refusal : b.refusal = a.refusal

theorem Issued.mono {id : String} (h : a.Issued id) (hle : a.issued ≤ b.issued) :
    b.Issued id := by
  obtain ⟨k, hk, rfl⟩ := h
  exact ⟨k, Nat.le_trans hk hle, rfl⟩

/-- The next id is not one of those issued before. -/
theorem not_issued_of_lt {n : Nat} (h : a.issued < n) : ¬a.Issued (idOfNumber n) := by
  rintro ⟨k, hk, heq⟩
  have hnk := idOfNumber_inj heq
  omega

/-- Whether no class is stored under an id that is still to be issued. -/
def Fresh (a : StoreAccess) : Prop :=
  ∀ n, a.issued < n → a.store.getClass? (idOfNumber n) = none

theorem Sound.fresh (ha : a.Sound) : a.Fresh := by
  intro n h
  cases hget : a.store.getClass? (idOfNumber n) with
  | none => rfl
  | some r => exact absurd (ha.issued _ r hget) (not_issued_of_lt h)

theorem Sound.getClass?_of_lt (ha : a.Sound) {n : Nat} (h : a.issued < n) :
    a.store.getClass? (idOfNumber n) = none :=
  ha.fresh n h

theorem Sound.of_empty : (ofStore .empty).Sound where
  consistent := .of_empty
  inside := .of_empty
  issued id r h := by cases h

theorem Advances.refl (ha : a.Sound) : Advances p a a := ⟨ha, .refl p _, Nat.le_refl _, rfl⟩

theorem Advances.trans (hab : Advances p a b) (hbc : Advances p b c) : Advances p a c :=
  ⟨hbc.sound, hab.frame.trans hbc.frame, Nat.le_trans hab.issued hbc.issued,
    hbc.refusal.trans hab.refusal⟩

/-- Classes that were nobody else's are still nobody else's. -/
theorem Advances.not_foreign (h : Advances p a b) (ha : a.Sound) {id : String}
    (hid : ¬a.store.Foreign p id) : ¬b.store.Foreign p id :=
  fun hf => hid ((h.frame.foreign_iff ha.consistent h.sound.consistent).1 hf)

/-- What counts of a store is its records and how many ids it has issued. -/
theorem Advances.of_store_eq (ha : a.Sound) (hstore : b.store = a.store)
    (hissued : a.issued ≤ b.issued) (hrefusal : b.refusal = a.refusal) : Advances p a b where
  sound := by
    refine ⟨hstore ▸ ha.consistent, hstore ▸ ha.inside, fun id r hget => ?_⟩
    rw [hstore] at hget
    exact (ha.issued id r hget).mono hissued
  frame := hstore ▸ .refl p _
  issued := hissued
  refusal := hrefusal

/-! ## Writing -/

/-- A write is refused and changes no record, or it is made in full. -/
theorem write_cases (w : StoreWrite) (a : StoreAccess) :
    ((∃ f, (write w a).1 = .error f) ∧ (write w a).2.store = a.store) ∨
      ((write w a).1 = .ok () ∧ a.store.write w = .ok (write w a).2.store) := by
  unfold StoreAccess.write
  dsimp only
  cases a.refusal w (a.asked.getD w.sort 0 + 1) with
  | some f => exact Or.inl ⟨⟨f, rfl⟩, rfl⟩
  | none =>
    cases hw : a.store.write w with
    | error f => exact Or.inl ⟨⟨f, rfl⟩, rfl⟩
    | ok s => exact Or.inr ⟨rfl, rfl⟩

/-- A write changes records at most, and counts how often it was asked for. -/
theorem exists_write_eq (w : StoreWrite) (a : StoreAccess) :
    ∃ store asked, (write w a).2 = { a with store := store, asked := asked } := by
  unfold StoreAccess.write
  dsimp only
  split
  · exact ⟨_, _, rfl⟩
  · split <;> exact ⟨_, _, rfl⟩

@[simp] theorem issued_write (w : StoreWrite) (a : StoreAccess) :
    (write w a).2.issued = a.issued := by
  obtain ⟨store, asked, hwrite⟩ := exists_write_eq w a
  rw [hwrite]

@[simp] theorem refusal_write (w : StoreWrite) (a : StoreAccess) :
    (write w a).2.refusal = a.refusal := by
  obtain ⟨store, asked, hwrite⟩ := exists_write_eq w a
  rw [hwrite]

/-- The writes after the first are asked for only if it is accepted. -/
theorem writeAll_cons (w : StoreWrite) (ws : List StoreWrite) (a : StoreAccess) :
    writeAll (w :: ws) a =
      match (write w a).1 with
      | .ok _ => writeAll ws (write w a).2
      | .error f => (.error f, (write w a).2) := by
  simp only [writeAll, bind, StateT.bind]
  cases hw : write w a with
  | mk o b =>
    cases o with
    | ok u => rfl
    | error f => rfl

/-- An accepted write has been made. -/
theorem write_eq_ok {w : StoreWrite} (h : (write w a).1 = .ok ()) :
    a.store.write w = .ok (write w a).2.store := by
  rcases write_cases w a with ⟨⟨f, hf⟩, -⟩ | ⟨-, hw⟩
  · rw [hf] at h
    cases h
  · exact hw

/-- A refused write changes no record. -/
theorem store_write_of_error {w : StoreWrite} {f : Failure} (h : (write w a).1 = .error f) :
    (write w a).2.store = a.store := by
  rcases write_cases w a with ⟨-, hstore⟩ | ⟨hok, -⟩
  · exact hstore
  · rw [hok] at h
    cases h

/-- A store that refuses nothing for reasons of its own. -/
def Unrefused (a : StoreAccess) : Prop := a.refusal = fun _ _ => none

/-- A store that refuses nothing does with a write what the records do. -/
theorem Unrefused.write_spec (h : a.Unrefused) (w : StoreWrite) :
    (write w a).1 = (a.store.write w).map (fun _ => ()) ∧
      (write w a).2.store = (a.store.write w).toOption.getD a.store := by
  have hrefusal : a.refusal w (a.asked.getD w.sort 0 + 1) = none := by rw [h]
  unfold StoreAccess.write
  dsimp only
  rw [hrefusal]
  cases a.store.write w with
  | ok t => exact ⟨rfl, rfl⟩
  | error f => exact ⟨rfl, rfl⟩

/-- What the records allow, a store that refuses nothing accepts. -/
theorem Unrefused.write_eq (h : a.Unrefused) {w : StoreWrite} {t : RecordStore}
    (hok : a.store.write w = .ok t) : (write w a).1 = .ok () ∧ (write w a).2.store = t := by
  obtain ⟨hresult, hstore⟩ := h.write_spec w
  rw [hok] at hresult hstore
  exact ⟨hresult, hstore⟩

/-- What the records do not allow is refused for that reason, and no record changes. -/
theorem Unrefused.write_eq_error (h : a.Unrefused) {w : StoreWrite} {f : Failure}
    (hrefused : a.store.write w = .error f) :
    (write w a).1 = .error f ∧ (write w a).2.store = a.store := by
  obtain ⟨hresult, hstore⟩ := h.write_spec w
  rw [hrefused] at hresult hstore
  exact ⟨hresult, hstore⟩

theorem Unrefused.writeAll_cons_eq (h : a.Unrefused) {w : StoreWrite} {t : RecordStore}
    (hok : a.store.write w = .ok t) (ws : List StoreWrite) :
    ∃ b, b.store = t ∧ b.Unrefused ∧ writeAll (w :: ws) a = writeAll ws b := by
  obtain ⟨hfirst, hstore⟩ := h.write_eq hok
  refine ⟨(StoreAccess.write w a).2, hstore, (refusal_write w a).trans h, ?_⟩
  rw [writeAll_cons, hfirst]

/-- A confined write leaves the records of other projects alone. -/
theorem Sound.frame_write (ha : a.Sound) {w : StoreWrite} (hw : a.Confined p w) {t : RecordStore}
    (hok : a.store.write w = .ok t) : Frame p a.store t := by
  cases w with
  | saveClasses rs =>
    cases hok
    exact .saveClasses (fun r hr => (hw r hr).1) fun r hr => (hw r hr).2.1
  | saveMethods rs =>
    rw [(saveMethods_eq_ok hok).1]
    exact .saveMethods ha.consistent hw
  | saveLinks ls =>
    cases hok
    exact .saveLinks ha.consistent fun l hl => (hw l hl).1.not_foreign
  | deleteClasses ids =>
    cases hok
    exact .deleteClasses ha.consistent ha.inside hw
  | deleteMethodsAndLinks ids =>
    cases hok
    exact .deleteMethodsAndLinks ha.consistent hw

/-- A confined write adds no link that leads out of the project. -/
theorem Sound.linksInside_write (ha : a.Sound) {w : StoreWrite} (hw : a.Confined p w)
    {t : RecordStore} (hok : a.store.write w = .ok t) : t.LinksInside := by
  cases w with
  | saveClasses rs =>
    cases hok
    exact ha.inside.saveClasses (fun r hr => (hw r hr).1) fun r hr => (hw r hr).2.1
  | saveMethods rs =>
    rw [(saveMethods_eq_ok hok).1]
    exact ha.inside.saveMethods rs
  | saveLinks ls =>
    cases hok
    exact ha.inside.saveLinks hw
  | deleteClasses ids =>
    cases hok
    exact ha.inside.deleteClasses ids
  | deleteMethodsAndLinks ids =>
    cases hok
    exact ha.inside.deleteMethodsAndLinks ids

/-- A confined write stores classes under issued ids only. -/
theorem Sound.issued_write (ha : a.Sound) {w : StoreWrite} (hw : a.Confined p w) {t : RecordStore}
    (hok : a.store.write w = .ok t) (id : String) (r : ClassRecord)
    (hget : t.getClass? id = some r) : a.Issued id := by
  cases w with
  | saveClasses rs =>
    cases hok
    rcases getClass?_saveClasses_cases hget with ⟨hr, rfl⟩ | hold
    · exact (hw r hr).2.2
    · exact ha.issued id r hold
  | saveMethods rs =>
    rw [(saveMethods_eq_ok hok).1] at hget
    unfold getClass? at hget
    rw [classes_putMethods] at hget
    exact ha.issued id r hget
  | saveLinks ls =>
    cases hok
    unfold getClass? at hget
    rw [classes_saveLinks] at hget
    exact ha.issued id r hget
  | deleteClasses ids =>
    cases hok
    rw [getClass?_deleteClasses] at hget
    split at hget
    · cases hget
    · exact ha.issued id r hget
  | deleteMethodsAndLinks ids =>
    cases hok
    exact ha.issued id r hget

/-- A confined write, whether it is accepted or refused, keeps the store sound and the other
projects as they were. -/
theorem Advances.write (ha : a.Sound) {w : StoreWrite} (hw : a.Confined p w) :
    Advances p a (StoreAccess.write w a).2 := by
  have hissued : a.issued ≤ (StoreAccess.write w a).2.issued := by simp
  rcases write_cases w a with ⟨-, hstore⟩ | ⟨-, hok⟩
  · exact .of_store_eq ha hstore hissued (refusal_write w a)
  · refine ⟨⟨ha.consistent.write hok, ha.linksInside_write hw hok, ?_⟩,
      ha.frame_write hw hok, hissued, refusal_write w a⟩
    exact fun id r hget => (ha.issued_write hw hok id r hget).mono hissued

/-- So do writes one after the other if the first is confined and the others are where it was
accepted. -/
theorem Advances.writeAll_cons (ha : a.Sound) {w : StoreWrite} {ws : List StoreWrite}
    (hw : a.Confined p w)
    (hws : ∀ b, a.store.write w = .ok b.store → Advances p a b →
      Advances p b (StoreAccess.writeAll ws b).2) :
    Advances p a (StoreAccess.writeAll (w :: ws) a).2 := by
  have hfirst : Advances p a (StoreAccess.write w a).2 := .write ha hw
  rw [StoreAccess.writeAll_cons]
  cases hok : (StoreAccess.write w a).1 with
  | error f => exact hfirst
  | ok u => exact hfirst.trans (hws _ (write_eq_ok hok) hfirst)

end CodeAtlas.StoreAccess
