import CodeAtlas.Proofs.Record.Consistent
import CodeAtlas.Record.Access

/-!
# Projects that share a store

Every stored class belongs to a project. A run writes only for its own project: this file says
what that means for each write, and proves that such writes leave the answers about all
other projects alone, however they are ordered and wherever they are refused.
-/

namespace CodeAtlas.RecordStore

variable {s : RecordStore} {p q id : String}

/-- Whether a class is stored for a project. -/
def Owns (s : RecordStore) (p id : String) : Prop := ∃ r, s.getClass? id = some r ∧ r.project = p

/-- Whether a class is stored for another project. -/
def Foreign (s : RecordStore) (p id : String) : Prop := ∃ q, q ≠ p ∧ s.Owns q id

/-- Whether every link leads from a stored class to a stored class of the same project. -/
def LinksInside (s : RecordStore) : Prop :=
  ∀ id, ∀ l ∈ s.linksFor id, ∃ p, s.Owns p id ∧ s.Owns p l.targetId

/-- The second store answers about all projects but one as the first does. -/
structure Frame (p : String) (a b : RecordStore) : Prop where
  classes : ∀ q, q ≠ p → b.findByProject q = a.findByProject q
  methods : ∀ q, q ≠ p → ∀ r ∈ a.findByProject q, b.methodsFor r.id = a.methodsFor r.id
  links : ∀ q, q ≠ p → ∀ r ∈ a.findByProject q, b.linksFor r.id = a.linksFor r.id

/-- A class belongs to one project only. -/
theorem Owns.unique (hp : s.Owns p id) (hq : s.Owns q id) : p = q := by
  obtain ⟨r, hr, rfl⟩ := hp
  obtain ⟨t, ht, rfl⟩ := hq
  rw [hr] at ht
  cases ht
  rfl

theorem Owns.not_foreign (h : s.Owns p id) : ¬s.Foreign p id := by
  rintro ⟨q, hq, hown⟩
  exact hq (hown.unique h)

/-- A class that is stored for no other project is stored for this one or not at all. -/
theorem Owns.of_not_foreign {r : ClassRecord} (h : ¬s.Foreign p id)
    (hget : s.getClass? id = some r) : r.project = p := by
  by_cases hp : r.project = p
  · exact hp
  · exact absurd ⟨r.project, hp, r, hget, rfl⟩ h

theorem owns_iff_exists_mem (hs : s.Consistent) :
    s.Owns p id ↔ ∃ r ∈ s.findByProject p, r.id = id := by
  constructor
  · rintro ⟨r, hget, rfl⟩
    exact ⟨r, mem_findByProject_of_getClass? hs hget, hs.classes_keyed id r hget⟩
  · rintro ⟨r, hr, rfl⟩
    obtain ⟨hget, hp⟩ := (mem_findByProject hs).1 hr
    exact ⟨r, hget, hp⟩

theorem foreign_of_mem_findByProject (hs : s.Consistent) (hq : q ≠ p) {r : ClassRecord}
    (hr : r ∈ s.findByProject q) : s.Foreign p r.id :=
  ⟨q, hq, (owns_iff_exists_mem hs).2 ⟨r, hr, rfl⟩⟩

theorem not_foreign_of_mem_ids (hs : s.Consistent)
    (hid : id ∈ (s.findByProject p).map (·.id)) : ¬s.Foreign p id := by
  obtain ⟨r, hr, rfl⟩ := List.mem_map.1 hid
  exact ((owns_iff_exists_mem hs).2 ⟨r, hr, rfl⟩).not_foreign

/-! ## Frames -/

theorem Frame.refl (p : String) (s : RecordStore) : Frame p s s :=
  ⟨fun _ _ => rfl, fun _ _ _ _ => rfl, fun _ _ _ _ => rfl⟩

theorem Frame.trans {a b c : RecordStore} (hab : Frame p a b) (hbc : Frame p b c) :
    Frame p a c where
  classes q hq := (hbc.classes q hq).trans (hab.classes q hq)
  methods q hq r hr := by
    have hrb : r ∈ b.findByProject q := by rwa [hab.classes q hq]
    exact (hbc.methods q hq r hrb).trans (hab.methods q hq r hr)
  links q hq r hr := by
    have hrb : r ∈ b.findByProject q := by rwa [hab.classes q hq]
    exact (hbc.links q hq r hrb).trans (hab.links q hq r hr)

/-- What other projects own, they owned before. -/
theorem Frame.owns_iff {a b : RecordStore} (h : Frame p a b) (ha : a.Consistent)
    (hb : b.Consistent) (hq : q ≠ p) : b.Owns q id ↔ a.Owns q id := by
  rw [owns_iff_exists_mem ha, owns_iff_exists_mem hb, h.classes q hq]

theorem Frame.foreign_iff {a b : RecordStore} (h : Frame p a b) (ha : a.Consistent)
    (hb : b.Consistent) : b.Foreign p id ↔ a.Foreign p id := by
  refine exists_congr fun q => ?_
  refine and_congr_right fun hq => ?_
  exact h.owns_iff ha hb hq

/-! ## Each sort of write -/

theorem Frame.saveClasses {rs : List ClassRecord} (hproject : ∀ r ∈ rs, r.project = p)
    (hforeign : ∀ r ∈ rs, ¬s.Foreign p r.id) : Frame p s (s.saveClasses rs) where
  classes q hq := by
    refine findByProject_saveClasses_of_others (fun r hr => ?_) fun r hr old hold => ?_
    · rw [hproject r hr]
      exact hq.symm
    · rw [Owns.of_not_foreign (hforeign r hr) hold]
      exact hq.symm
  methods q _ r _ := methodsFor_saveClasses s rs r.id
  links q _ r _ := linksFor_saveClasses s rs r.id

theorem Frame.saveMethods (hs : s.Consistent) {rs : List MethodRecord}
    (hforeign : ∀ r ∈ rs, ¬s.Foreign p r.classId) : Frame p s (rs.foldl putMethod s) where
  classes q _ := by
    unfold findByProject
    rw [classes_putMethods]
  methods q hq r hr := by
    have hnone : rs.filter (fun m => m.classId = r.id) = [] := by
      rw [List.filter_eq_nil_iff]
      rintro m hm heq
      rw [decide_eq_true_eq] at heq
      exact hforeign m hm (heq ▸ foreign_of_mem_findByProject hs hq hr)
    rw [methodsFor_eq_values, rowsOf_putMethods, hnone]
    rfl
  links q _ r _ := by
    unfold linksFor
    rw [links_putMethods]

theorem Frame.saveLinks (hs : s.Consistent) {ls : List LinkRecord}
    (hforeign : ∀ l ∈ ls, ¬s.Foreign p l.classId) : Frame p s (s.saveLinks ls) where
  classes q _ := by
    unfold findByProject
    rw [classes_saveLinks]
  methods q _ r _ := by
    unfold methodsFor
    rw [methods_saveLinks]
  links q hq r hr := by
    have hnone : ls.filter (fun l => l.classId = r.id) = [] := by
      rw [List.filter_eq_nil_iff]
      rintro l hl heq
      rw [decide_eq_true_eq] at heq
      exact hforeign l hl (heq ▸ foreign_of_mem_findByProject hs hq hr)
    rw [linksFor_saveLinks, hnone]
    rfl

theorem Frame.deleteMethodsAndLinks (hs : s.Consistent) {ids : List String}
    (hforeign : ∀ id ∈ ids, ¬s.Foreign p id) : Frame p s (s.deleteMethodsAndLinks ids) where
  classes _ _ := rfl
  methods q hq r hr := by
    have hout : r.id ∉ ids := fun hmem =>
      hforeign r.id hmem (foreign_of_mem_findByProject hs hq hr)
    rw [methodsFor_eq_values, rowsOf_deleteMethodsAndLinks, if_neg hout]
    rfl
  links q hq r hr := by
    have hout : r.id ∉ ids := fun hmem =>
      hforeign r.id hmem (foreign_of_mem_findByProject hs hq hr)
    rw [linksFor_deleteMethodsAndLinks, if_neg hout]

/-- Deleting classes of one project takes no link from the others, since none of theirs leads
to it. -/
theorem Frame.deleteClasses (hs : s.Consistent) (hinside : s.LinksInside) {ids : List String}
    (hforeign : ∀ id ∈ ids, ¬s.Foreign p id) : Frame p s (s.deleteClasses ids) where
  classes q hq := by
    rw [findByProject_deleteClasses hs, List.filter_eq_self]
    intro r hr
    have hout : r.id ∉ ids := fun hmem =>
      hforeign r.id hmem (foreign_of_mem_findByProject hs hq hr)
    simpa using hout
  methods q hq r hr := (deleteMethodsAndLinks hs hforeign).methods q hq r hr
  links q hq r hr := by
    have hout : r.id ∉ ids := fun hmem =>
      hforeign r.id hmem (foreign_of_mem_findByProject hs hq hr)
    rw [linksFor_deleteClasses, if_neg hout, List.filter_eq_self]
    intro l hl
    obtain ⟨t, howner, htarget⟩ := hinside r.id l hl
    have hqt : q = t := Owns.unique ((owns_iff_exists_mem hs).2 ⟨r, hr, rfl⟩) howner
    have htout : l.targetId ∉ ids := fun hmem => hforeign l.targetId hmem ⟨t, hqt ▸ hq, htarget⟩
    simpa using htout

/-- Saving classes of a project under ids of its own takes no class from anyone. -/
theorem Owns.saveClasses {rs : List ClassRecord} (h : s.Owns q id)
    (hproject : ∀ r ∈ rs, r.project = p) (hforeign : ∀ r ∈ rs, ¬s.Foreign p r.id) :
    (s.saveClasses rs).Owns q id := by
  by_cases hmem : id ∈ rs.map (·.id)
  · obtain ⟨r, hr, rfl, hget⟩ := exists_getClass?_saveClasses (s := s) hmem
    obtain ⟨old, hold, rfl⟩ := h
    refine ⟨r, hget, ?_⟩
    rw [hproject r hr, Owns.of_not_foreign (hforeign r hr) hold]
  · obtain ⟨old, hold, hq⟩ := h
    exact ⟨old, by rwa [getClass?_saveClasses_of_not_mem hmem], hq⟩

theorem owns_deleteClasses {ids : List String} :
    (s.deleteClasses ids).Owns q id ↔ id ∉ ids ∧ s.Owns q id := by
  unfold Owns
  rw [getClass?_deleteClasses]
  by_cases hmem : id ∈ ids <;> simp [hmem]

theorem owns_of_classes_eq {t : RecordStore} (h : t.classes = s.classes) :
    t.Owns q id ↔ s.Owns q id := by
  unfold Owns getClass?
  rw [h]

theorem LinksInside.of_empty : RecordStore.empty.LinksInside := fun _ _ h => by cases h

theorem LinksInside.saveClasses (h : s.LinksInside) {rs : List ClassRecord}
    (hproject : ∀ r ∈ rs, r.project = p) (hforeign : ∀ r ∈ rs, ¬s.Foreign p r.id) :
    (s.saveClasses rs).LinksInside := by
  intro id l hl
  rw [linksFor_saveClasses] at hl
  obtain ⟨q, howner, htarget⟩ := h id l hl
  exact ⟨q, howner.saveClasses hproject hforeign, htarget.saveClasses hproject hforeign⟩

theorem LinksInside.saveMethods (h : s.LinksInside) (rs : List MethodRecord) :
    (rs.foldl putMethod s).LinksInside := by
  intro id l hl
  unfold linksFor at hl
  rw [links_putMethods] at hl
  obtain ⟨q, howner, htarget⟩ := h id l hl
  have hclasses := classes_putMethods s rs
  exact ⟨q, (owns_of_classes_eq hclasses).2 howner, (owns_of_classes_eq hclasses).2 htarget⟩

theorem LinksInside.saveLinks (h : s.LinksInside) {ls : List LinkRecord}
    (hends : ∀ l ∈ ls, s.Owns p l.classId ∧ s.Owns p l.targetId) :
    (s.saveLinks ls).LinksInside := by
  intro id l hl
  have hold : ∃ q, s.Owns q id ∧ s.Owns q l.targetId := by
    rw [linksFor_saveLinks, mem_foldl_appendNew] at hl
    rcases hl with hl | hl
    · exact h id l hl
    · obtain ⟨hmem, hid⟩ := List.mem_filter.1 hl
      rw [decide_eq_true_eq] at hid
      exact ⟨p, hid ▸ hends l hmem⟩
  obtain ⟨q, howner, htarget⟩ := hold
  have hclasses := classes_saveLinks s ls
  exact ⟨q, (owns_of_classes_eq hclasses).2 howner, (owns_of_classes_eq hclasses).2 htarget⟩

theorem LinksInside.deleteMethodsAndLinks (h : s.LinksInside) (ids : List String) :
    (s.deleteMethodsAndLinks ids).LinksInside := by
  intro id l hl
  rw [linksFor_deleteMethodsAndLinks] at hl
  split at hl
  · cases hl
  · exact h id l hl

/-- Deleting classes deletes the links that point at them with those that they own. -/
theorem LinksInside.deleteClasses (h : s.LinksInside) (ids : List String) :
    (s.deleteClasses ids).LinksInside := by
  intro id l hl
  rw [linksFor_deleteClasses] at hl
  split at hl
  · cases hl
  · next hid =>
    obtain ⟨hl, hout⟩ := List.mem_filter.1 hl
    obtain ⟨q, howner, htarget⟩ := h id l hl
    exact ⟨q, owns_deleteClasses.2 ⟨hid, howner⟩,
      owns_deleteClasses.2 ⟨by simpa using hout, htarget⟩⟩

end CodeAtlas.RecordStore
