import CodeAtlas.Proofs.Record.Reads

/-!
# Consistent stores

The three tables of a store refer to each other by id. This file names what they have to do
with each other, whatever is written in whatever order, and what follows for the answers.
-/

namespace CodeAtlas.RecordStore

/-- What the tables of a store have to do with each other: every record stands under its own
ids, nothing is listed twice, and only stored classes have methods. -/
structure Consistent (s : RecordStore) : Prop where
  classes_nodup : s.classes.keys.Nodup
  classes_keyed : ∀ id r, s.getClass? id = some r → r.id = id
  rows_nodup : ∀ id, (s.rowsOf id).keys.Nodup
  rows_keyed : ∀ id k r, (s.rowsOf id).get? k = some r → r.id = k ∧ r.classId = id
  rows_stored : ∀ id, s.getClass? id = none → s.rowsOf id = .empty
  links_nodup : ∀ id, (s.linksFor id).Nodup
  links_owned : ∀ id, ∀ l ∈ s.linksFor id, l.classId = id

theorem Consistent.of_empty : RecordStore.empty.Consistent where
  classes_nodup := List.nodup_nil
  classes_keyed id r h := by cases h
  rows_nodup _ := List.nodup_nil
  rows_keyed id k r h := by cases h
  rows_stored _ _ := rfl
  links_nodup _ := List.nodup_nil
  links_owned _ _ h := by cases h

/-! ## Every write keeps a store consistent -/

theorem Consistent.putClass {s : RecordStore} (hs : s.Consistent) (r : ClassRecord) :
    (s.putClass r).Consistent where
  classes_nodup := Dict.nodup_keys_insert hs.classes_nodup _ _
  classes_keyed id c hget := by
    rcases getClass?_putClass_eq_some hget with ⟨hid, rfl⟩ | hget
    · exact hid.symm
    · exact hs.classes_keyed id c hget
  rows_nodup := hs.rows_nodup
  rows_keyed := hs.rows_keyed
  rows_stored id hget := by
    rw [getClass?_putClass] at hget
    split at hget
    · cases hget
    · exact hs.rows_stored id hget
  links_nodup := hs.links_nodup
  links_owned := hs.links_owned

theorem Consistent.saveClasses {s : RecordStore} (hs : s.Consistent) (rs : List ClassRecord) :
    (s.saveClasses rs).Consistent := by
  induction rs generalizing s with
  | nil => exact hs
  | cons r rest ih => exact ih (hs.putClass r)

theorem Consistent.putMethod {s : RecordStore} (hs : s.Consistent) {r : MethodRecord}
    (hknown : s.classes.contains r.classId = true) : (s.putMethod r).Consistent where
  classes_nodup := hs.classes_nodup
  classes_keyed := hs.classes_keyed
  rows_nodup id := nodup_rowsOf_putMethod (hs.rows_nodup id) r
  rows_keyed id k m hget := by
    rcases get?_rowsOf_putMethod_eq_some hget with ⟨hid, hk, rfl⟩ | hget
    · exact ⟨hk.symm, hid.symm⟩
    · exact hs.rows_keyed id k m hget
  rows_stored id hget := by
    have hne : id ≠ r.classId := by
      rintro rfl
      obtain ⟨c, hc⟩ := Dict.exists_get?_of_contains hknown
      have hnone : s.classes.get? r.classId = none := hget
      rw [hc] at hnone
      cases hnone
    rw [rowsOf_putMethod, if_neg hne]
    exact hs.rows_stored id hget
  links_nodup := hs.links_nodup
  links_owned := hs.links_owned

theorem Consistent.saveMethods {s t : RecordStore} (hs : s.Consistent) {rs : List MethodRecord}
    (hsave : s.saveMethods rs = .ok t) : t.Consistent := by
  obtain ⟨rfl, hknown⟩ := saveMethods_eq_ok hsave
  clear hsave
  induction rs generalizing s with
  | nil => exact hs
  | cons r rest ih =>
    exact ih (hs.putMethod (hknown r (List.mem_cons_self ..)))
      fun x hx => hknown x (List.mem_cons_of_mem _ hx)

theorem Consistent.putLink {s : RecordStore} (hs : s.Consistent) (l : LinkRecord) :
    (s.putLink l).Consistent where
  classes_nodup := hs.classes_nodup
  classes_keyed := hs.classes_keyed
  rows_nodup := hs.rows_nodup
  rows_keyed := hs.rows_keyed
  rows_stored := hs.rows_stored
  links_nodup id := by
    rw [linksFor_putLink]
    split
    · exact nodup_appendNew (hs.links_nodup id) l
    · exact hs.links_nodup id
  links_owned id m hm := by
    rw [linksFor_putLink] at hm
    split at hm
    · next hid =>
      rcases mem_appendNew.1 hm with hm | rfl
      · exact hs.links_owned id m hm
      · exact hid.symm
    · exact hs.links_owned id m hm

theorem Consistent.saveLinks {s : RecordStore} (hs : s.Consistent) (ls : List LinkRecord) :
    (s.saveLinks ls).Consistent := by
  induction ls generalizing s with
  | nil => exact hs
  | cons l rest ih => exact ih (hs.putLink l)

theorem Consistent.deleteMethodsAndLinks {s : RecordStore} (hs : s.Consistent)
    (ids : List String) : (s.deleteMethodsAndLinks ids).Consistent where
  classes_nodup := hs.classes_nodup
  classes_keyed := hs.classes_keyed
  rows_nodup id := by
    rw [rowsOf_deleteMethodsAndLinks]
    split
    · exact List.nodup_nil
    · exact hs.rows_nodup id
  rows_keyed id k r hget := by
    rw [rowsOf_deleteMethodsAndLinks] at hget
    split at hget
    · cases hget
    · exact hs.rows_keyed id k r hget
  rows_stored id hget := by
    rw [rowsOf_deleteMethodsAndLinks]
    split
    · rfl
    · exact hs.rows_stored id hget
  links_nodup id := by
    rw [linksFor_deleteMethodsAndLinks]
    split
    · exact List.nodup_nil
    · exact hs.links_nodup id
  links_owned id l hl := by
    rw [linksFor_deleteMethodsAndLinks] at hl
    split at hl
    · cases hl
    · exact hs.links_owned id l hl

theorem Consistent.deleteClasses {s : RecordStore} (hs : s.Consistent) (ids : List String) :
    (s.deleteClasses ids).Consistent where
  classes_nodup := Dict.nodup_keys_filterKeys hs.classes_nodup _
  classes_keyed id r hget := by
    rw [getClass?_deleteClasses] at hget
    split at hget
    · cases hget
    · exact hs.classes_keyed id r hget
  rows_nodup := (hs.deleteMethodsAndLinks ids).rows_nodup
  rows_keyed := (hs.deleteMethodsAndLinks ids).rows_keyed
  rows_stored id hget := by
    rw [rowsOf_deleteClasses]
    split
    · rfl
    · next hid =>
      rw [getClass?_deleteClasses, if_neg hid] at hget
      exact hs.rows_stored id hget
  links_nodup id := by
    rw [linksFor_deleteClasses]
    split
    · exact List.nodup_nil
    · exact (hs.links_nodup id).filter _
  links_owned id l hl := by
    rw [linksFor_deleteClasses] at hl
    split at hl
    · cases hl
    · exact hs.links_owned id l (List.mem_filter.1 hl).1

/-- Whatever is written, a write that is accepted keeps a store consistent. -/
theorem Consistent.write {s t : RecordStore} (hs : s.Consistent) {w : StoreWrite}
    (hw : s.write w = .ok t) : t.Consistent := by
  cases w with
  | saveClasses rs =>
    cases hw
    exact hs.saveClasses rs
  | saveMethods rs => exact hs.saveMethods hw
  | saveLinks ls =>
    cases hw
    exact hs.saveLinks ls
  | deleteClasses ids =>
    cases hw
    exact hs.deleteClasses ids
  | deleteMethodsAndLinks ids =>
    cases hw
    exact hs.deleteMethodsAndLinks ids

/-! ## Answers of consistent stores -/

section Answers

variable {s : RecordStore}

/-- The classes of a project are the stored classes that name it. -/
theorem mem_findByProject (hs : s.Consistent) {p : String} {r : ClassRecord} :
    r ∈ s.findByProject p ↔ s.getClass? r.id = some r ∧ r.project = p := by
  simp only [findByProject, List.mem_filter, decide_eq_true_eq]
  refine and_congr_left fun _ => ?_
  rw [Dict.mem_values_iff hs.classes_nodup]
  constructor
  · rintro ⟨k, hk⟩
    have hid := hs.classes_keyed k r hk
    rw [hid]
    exact hk
  · exact fun h => ⟨r.id, h⟩

/-- Two records of a project with one id are the same. -/
theorem eq_of_mem_findByProject (hs : s.Consistent) {p : String} {r r' : ClassRecord}
    (hr : r ∈ s.findByProject p) (hr' : r' ∈ s.findByProject p) (heq : r.id = r'.id) : r = r' := by
  have hget := ((mem_findByProject hs).1 hr).1
  have hget' := ((mem_findByProject hs).1 hr').1
  rw [heq, hget'] at hget
  exact (Option.some.inj hget).symm

/-- A stored class is listed under its project. -/
theorem mem_findByProject_of_getClass? (hs : s.Consistent) {id : String} {r : ClassRecord}
    (h : s.getClass? id = some r) : r ∈ s.findByProject r.project := by
  have hid := hs.classes_keyed id r h
  exact (mem_findByProject hs).2 ⟨hid ▸ h, rfl⟩

/-- The classes of a project have different ids. -/
theorem nodup_ids_findByProject (hs : s.Consistent) (p : String) :
    ((s.findByProject p).map (·.id)).Nodup := by
  have hkeys : s.classes.values.map (·.id) = s.classes.keys := by
    unfold Dict.values Dict.keys
    rw [List.map_map]
    refine List.map_congr_left fun e he => ?_
    exact hs.classes_keyed e.1 e.2 ((Dict.mem_entries_iff hs.classes_nodup e.1 e.2).1 he)
  have hall : (s.classes.values.map (·.id)).Nodup := hkeys ▸ hs.classes_nodup
  exact hall.sublist (List.filter_sublist.map _)

theorem findByProject_deleteClasses (hs : s.Consistent) (ids : List String) (q : String) :
    (s.deleteClasses ids).findByProject q =
      (s.findByProject q).filter fun r => !ids.contains r.id := by
  have hvalues : (s.deleteClasses ids).classes.values =
      s.classes.values.filter fun r => !ids.contains r.id := by
    unfold Dict.values
    rw [List.filter_map]
    refine congrArg (List.map _) (List.filter_congr fun e he => ?_)
    have hid := hs.classes_keyed e.1 e.2 ((Dict.mem_entries_iff hs.classes_nodup e.1 e.2).1 he)
    simp [hid]
  unfold findByProject
  rw [hvalues, List.filter_filter, List.filter_filter]
  exact List.filter_congr fun r _ => Bool.and_comm ..

/-- The methods of a class are its rows, and they name it. -/
theorem classId_of_mem_methodsFor (hs : s.Consistent) {id : String} {r : MethodRecord}
    (h : r ∈ s.methodsFor id) : r.classId = id := by
  obtain ⟨k, hk⟩ := (Dict.mem_values_iff (hs.rows_nodup id) r).1 h
  exact (hs.rows_keyed id k r hk).2

/-- The methods of a class have different ids. -/
theorem nodup_ids_methodsFor (hs : s.Consistent) (id : String) :
    ((s.methodsFor id).map (·.id)).Nodup := by
  have hkeys : (s.methodsFor id).map (·.id) = (s.rowsOf id).keys := by
    rw [methodsFor_eq_values]
    unfold Dict.values Dict.keys
    rw [List.map_map]
    refine List.map_congr_left fun e he => ?_
    exact (hs.rows_keyed id e.1 e.2
      ((Dict.mem_entries_iff (hs.rows_nodup id) e.1 e.2).1 he)).1
  rw [hkeys]
  exact hs.rows_nodup id

end Answers

end CodeAtlas.RecordStore
