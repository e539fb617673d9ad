import CodeAtlas.Record.Store

/-!
# What writes do to the answers of the store

The store is asked four things: the classes of a project, one class, the methods of a class
and the links that it owns. This file says, for each kind of write, what the answers are
afterwards.
-/

namespace CodeAtlas.RecordStore

variable {s : RecordStore}

/-- The method records of a class by their ids. -/
def rowsOf (s : RecordStore) (id : String) : Dict String MethodRecord := s.methods.getD id .empty

theorem methodsFor_eq_values (s : RecordStore) (id : String) :
    s.methodsFor id = (s.rowsOf id).values := rfl

/-! ## Classes -/

theorem getClass?_putClass (s : RecordStore) (r : ClassRecord) (id : String) :
    (s.putClass r).getClass? id = if id = r.id then some r else s.getClass? id :=
  Dict.get?_insert _ _ _ _

/-- A stored class has just been saved, or it was stored before. -/
theorem getClass?_putClass_eq_some {s : RecordStore} {r c : ClassRecord} {id : String}
    (h : (s.putClass r).getClass? id = some c) :
    (id = r.id ∧ c = r) ∨ s.getClass? id = some c := by
  rw [getClass?_putClass] at h
  split at h
  · next hid => exact Or.inl ⟨hid, (Option.some.inj h).symm⟩
  · exact Or.inr h

@[simp] theorem rowsOf_saveClasses (s : RecordStore) (rs : List ClassRecord) (id : String) :
    (s.saveClasses rs).rowsOf id = s.rowsOf id := by
  unfold saveClasses
  induction rs generalizing s with
  | nil => rfl
  | cons r rest ih => exact ih (s.putClass r)

@[simp] theorem linksFor_saveClasses (s : RecordStore) (rs : List ClassRecord) (id : String) :
    (s.saveClasses rs).linksFor id = s.linksFor id := by
  unfold saveClasses
  induction rs generalizing s with
  | nil => rfl
  | cons r rest ih => exact ih (s.putClass r)

@[simp] theorem methodsFor_saveClasses (s : RecordStore) (rs : List ClassRecord) (id : String) :
    (s.saveClasses rs).methodsFor id = s.methodsFor id := by
  rw [methodsFor_eq_values, rowsOf_saveClasses, methodsFor_eq_values]

theorem saveClasses_cons (s : RecordStore) (r : ClassRecord) (rs : List ClassRecord) :
    s.saveClasses (r :: rs) = (s.putClass r).saveClasses rs := rfl

/-- Classes that are not saved stay as they are. -/
theorem getClass?_saveClasses_of_not_mem {rs : List ClassRecord} {id : String}
    (h : id ∉ rs.map (·.id)) : (s.saveClasses rs).getClass? id = s.getClass? id := by
  induction rs generalizing s with
  | nil => rfl
  | cons r rest ih =>
    simp only [List.map_cons, List.mem_cons, not_or] at h
    rw [saveClasses_cons, ih h.2, getClass?_putClass, if_neg h.1]

/-- Each of several classes saved under different ids is stored. -/
theorem getClass?_saveClasses_of_mem {rs : List ClassRecord} (hnodup : (rs.map (·.id)).Nodup)
    {r : ClassRecord} (hr : r ∈ rs) : (s.saveClasses rs).getClass? r.id = some r := by
  induction rs generalizing s with
  | nil => cases hr
  | cons a rest ih =>
    obtain ⟨ha, hrest⟩ := List.nodup_cons.1 hnodup
    rw [saveClasses_cons]
    rcases List.mem_cons.1 hr with rfl | hr
    · rw [getClass?_saveClasses_of_not_mem ha, getClass?_putClass, if_pos rfl]
    · exact ih hrest hr

/-- A class is stored afterwards if it was saved or stored before, and in no other case. -/
theorem getClass?_saveClasses_cases {rs : List ClassRecord} {id : String} {r : ClassRecord}
    (h : (s.saveClasses rs).getClass? id = some r) :
    (r ∈ rs ∧ r.id = id) ∨ s.getClass? id = some r := by
  induction rs generalizing s with
  | nil => exact Or.inr h
  | cons a rest ih =>
    rw [saveClasses_cons] at h
    rcases ih h with ⟨hr, hid⟩ | hput
    · exact Or.inl ⟨List.mem_cons_of_mem _ hr, hid⟩
    · rcases getClass?_putClass_eq_some hput with ⟨hid, rfl⟩ | hold
      · exact Or.inl ⟨List.mem_cons_self .., hid.symm⟩
      · exact Or.inr hold

/-- What is saved under an id is one of the saved classes. -/
theorem exists_getClass?_saveClasses {rs : List ClassRecord} {id : String}
    (h : id ∈ rs.map (·.id)) :
    ∃ r ∈ rs, r.id = id ∧ (s.saveClasses rs).getClass? id = some r := by
  induction rs generalizing s with
  | nil => cases h
  | cons a rest ih =>
    rw [saveClasses_cons]
    by_cases hmem : id ∈ rest.map (·.id)
    · obtain ⟨r, hr, hid, hget⟩ := ih (s := s.putClass a) hmem
      exact ⟨r, List.mem_cons_of_mem _ hr, hid, hget⟩
    · have hid : id = a.id := by simpa [hmem] using h
      refine ⟨a, List.mem_cons_self .., hid.symm, ?_⟩
      rw [getClass?_saveClasses_of_not_mem hmem, getClass?_putClass, if_pos hid]

/-- Saving classes does not show in a project that they neither belong to nor take from. -/
theorem findByProject_saveClasses_of_others {rs : List ClassRecord} {q : String}
    (hnew : ∀ r ∈ rs, r.project ≠ q)
    (hold : ∀ r ∈ rs, ∀ old, s.getClass? r.id = some old → old.project ≠ q) :
    (s.saveClasses rs).findByProject q = s.findByProject q := by
  induction rs generalizing s with
  | nil => rfl
  | cons a rest ih =>
    have hput : (s.putClass a).findByProject q = s.findByProject q :=
      Dict.filter_values_insert (by simpa using hnew a (List.mem_cons_self ..)) fun old hget => by
        simpa using hold a (List.mem_cons_self ..) old hget
    rw [saveClasses_cons, ih (fun r hr => hnew r (List.mem_cons_of_mem _ hr)), hput]
    intro r hr old hget
    rcases getClass?_putClass_eq_some hget with ⟨-, rfl⟩ | hget
    · exact hnew old (List.mem_cons_self ..)
    · exact hold r (List.mem_cons_of_mem _ hr) old hget

/-- Classes saved under new ids follow the other classes of their project in their order. -/
theorem findByProject_saveClasses_of_new {rs : List ClassRecord} (hnodup : (rs.map (·.id)).Nodup)
    (hnew : ∀ r ∈ rs, s.getClass? r.id = none) (q : String) :
    (s.saveClasses rs).findByProject q =
      s.findByProject q ++ rs.filter fun r => r.project = q := by
  have hclasses : (s.saveClasses rs).classes =
      rs.foldl (fun d r => d.insert r.id r) s.classes := by
    unfold saveClasses
    generalize s = t
    induction rs generalizing t with
    | nil => rfl
    | cons r rest ih =>
      exact ih (List.nodup_cons.1 hnodup).2 (fun x hx => hnew x (List.mem_cons_of_mem _ hx))
        (t.putClass r)
  unfold findByProject
  rw [hclasses, Dict.values_foldl_insert_of_new _ _ hnodup, List.filter_append]
  intro r hr hmem
  have hsome := (Dict.contains_iff_mem_keys _ _).2 hmem
  simp [Dict.contains, show s.classes.get? r.id = none from hnew r hr] at hsome

/-! ## Methods -/

theorem rowsOf_putMethod (s : RecordStore) (r : MethodRecord) (id : String) :
    (s.putMethod r).rowsOf id =
      if id = r.classId then (s.rowsOf id).insert r.id r else s.rowsOf id := by
  unfold rowsOf putMethod
  rw [Dict.getD_insert]
  split
  · next h => rw [h]
  · rfl

/-- A stored row has just been saved, or it was stored before. -/
theorem get?_rowsOf_putMethod_eq_some {s : RecordStore} {r m : MethodRecord} {id k : String}
    (h : ((s.putMethod r).rowsOf id).get? k = some m) :
    (id = r.classId ∧ k = r.id ∧ m = r) ∨ (s.rowsOf id).get? k = some m := by
  rw [rowsOf_putMethod] at h
  split at h
  · next hid =>
    rw [Dict.get?_insert] at h
    split at h
    · next hk => exact Or.inl ⟨hid, hk, (Option.some.inj h).symm⟩
    · exact Or.inr h
  · exact Or.inr h

theorem nodup_rowsOf_putMethod {s : RecordStore} {id : String} (h : (s.rowsOf id).keys.Nodup)
    (r : MethodRecord) : ((s.putMethod r).rowsOf id).keys.Nodup := by
  rw [rowsOf_putMethod]
  split
  · exact Dict.nodup_keys_insert h _ _
  · exact h

@[simp] theorem classes_putMethods (s : RecordStore) (rs : List MethodRecord) :
    (rs.foldl putMethod s).classes = s.classes := by
  induction rs generalizing s with
  | nil => rfl
  | cons r rest ih => exact ih (s.putMethod r)

@[simp] theorem links_putMethods (s : RecordStore) (rs : List MethodRecord) :
    (rs.foldl putMethod s).links = s.links := by
  induction rs generalizing s with
  | nil => rfl
  | cons r rest ih => exact ih (s.putMethod r)

/-- The rows of a class are those before with the saved ones that name it put in. -/
theorem rowsOf_putMethods (s : RecordStore) (rs : List MethodRecord) (id : String) :
    (rs.foldl putMethod s).rowsOf id =
      (rs.filter fun r => r.classId = id).foldl (fun d r => d.insert r.id r) (s.rowsOf id) := by
  induction rs generalizing s with
  | nil => rfl
  | cons r rest ih =>
    rw [List.foldl_cons, ih, rowsOf_putMethod]
    by_cases h : r.classId = id
    · rw [List.filter_cons_of_pos (by simpa using h), if_pos h.symm]
      rfl
    · rw [List.filter_cons_of_neg (by simpa using h), if_neg (Ne.symm h)]

/-- Accepted rows are put in, and their classes are known. -/
theorem saveMethods_eq_ok {rs : List MethodRecord} {t : RecordStore}
    (h : s.saveMethods rs = .ok t) :
    t = rs.foldl putMethod s ∧ ∀ r ∈ rs, s.classes.contains r.classId = true := by
  have hknown := (saveMethods_isOk_iff s rs).1 ⟨t, h⟩
  have hnil : s.unknownClasses rs = [] := by
    simpa [unknownClasses, List.filter_eq_nil_iff] using hknown
  rw [saveMethods, hnil] at h
  cases h
  exact ⟨rfl, hknown⟩

/-- Rows are accepted if their classes are known. -/
theorem saveMethods_of_known {rs : List MethodRecord}
    (h : ∀ r ∈ rs, s.classes.contains r.classId = true) :
    s.saveMethods rs = .ok (rs.foldl putMethod s) := by
  obtain ⟨t, ht⟩ := (saveMethods_isOk_iff s rs).2 h
  rw [ht, (saveMethods_eq_ok ht).1]

/-! ## Links -/

theorem linksFor_putLink (s : RecordStore) (l : LinkRecord) (id : String) :
    (s.putLink l).linksFor id =
      if id = l.classId then appendNew (s.linksFor id) l else s.linksFor id := by
  unfold linksFor putLink
  rw [Dict.getD_insert]
  split
  · next h =>
    rw [h]
    rfl
  · rfl

@[simp] theorem classes_saveLinks (s : RecordStore) (ls : List LinkRecord) :
    (s.saveLinks ls).classes = s.classes := by
  unfold saveLinks
  induction ls generalizing s with
  | nil => rfl
  | cons l rest ih => exact ih (s.putLink l)

@[simp] theorem methods_saveLinks (s : RecordStore) (ls : List LinkRecord) :
    (s.saveLinks ls).methods = s.methods := by
  unfold saveLinks
  induction ls generalizing s with
  | nil => rfl
  | cons l rest ih => exact ih (s.putLink l)

/-- The links of a class are those before with the saved ones that it owns added. -/
theorem linksFor_saveLinks (s : RecordStore) (ls : List LinkRecord) (id : String) :
    (s.saveLinks ls).linksFor id =
      (ls.filter fun l => l.classId = id).foldl appendNew (s.linksFor id) := by
  unfold saveLinks
  induction ls generalizing s with
  | nil => rfl
  | cons l rest ih =>
    rw [List.foldl_cons, ih, linksFor_putLink]
    by_cases h : l.classId = id
    · rw [List.filter_cons_of_pos (by simpa using h), if_pos h.symm]
      rfl
    · rw [List.filter_cons_of_neg (by simpa using h), if_neg (Ne.symm h)]

/-! ## Deletions -/

theorem rowsOf_deleteMethodsAndLinks (s : RecordStore) (ids : List String) (id : String) :
    (s.deleteMethodsAndLinks ids).rowsOf id = if id ∈ ids then .empty else s.rowsOf id := by
  unfold rowsOf deleteMethodsAndLinks Dict.getD
  rw [Dict.get?_filterKeys]
  by_cases h : id ∈ ids <;> simp [h]

theorem linksFor_deleteMethodsAndLinks (s : RecordStore) (ids : List String) (id : String) :
    (s.deleteMethodsAndLinks ids).linksFor id = if id ∈ ids then [] else s.linksFor id := by
  unfold linksFor deleteMethodsAndLinks Dict.getD
  rw [Dict.get?_filterKeys]
  by_cases h : id ∈ ids <;> simp [h]

theorem getClass?_deleteClasses (s : RecordStore) (ids : List String) (id : String) :
    (s.deleteClasses ids).getClass? id = if id ∈ ids then none else s.getClass? id := by
  unfold getClass? deleteClasses
  rw [Dict.get?_filterKeys]
  by_cases h : id ∈ ids <;> simp [h, deleteMethodsAndLinks]

theorem rowsOf_deleteClasses (s : RecordStore) (ids : List String) (id : String) :
    (s.deleteClasses ids).rowsOf id = if id ∈ ids then .empty else s.rowsOf id :=
  rowsOf_deleteMethodsAndLinks s ids id

/-- Deleted classes own no links, and no link points at them. -/
theorem linksFor_deleteClasses (s : RecordStore) (ids : List String) (id : String) :
    (s.deleteClasses ids).linksFor id =
      if id ∈ ids then [] else (s.linksFor id).filter fun l => !ids.contains l.targetId := by
  have hdropped := linksFor_deleteMethodsAndLinks s ids id
  unfold linksFor Dict.getD at hdropped ⊢
  simp only [deleteClasses, Dict.get?_mapValues]
  cases hget : (s.deleteMethodsAndLinks ids).links.get? id with
  | none =>
    rw [hget] at hdropped
    split at hdropped
    · next h => simp [h]
    · next h =>
      rw [if_neg h, ← hdropped]
      rfl
  | some ls =>
    rw [hget] at hdropped
    split at hdropped
    · next h =>
      obtain rfl : ls = [] := hdropped
      rw [if_pos h]
      rfl
    · next h =>
      rw [if_neg h, ← hdropped]
      rfl

/-- Deleting the methods and links of no class changes nothing. -/
theorem deleteMethodsAndLinks_nil (s : RecordStore) : s.deleteMethodsAndLinks [] = s := by
  obtain ⟨classes, methods, links⟩ := s
  have hall {α : Type} (xs : List α) : xs.filter (fun _ => true) = xs :=
    List.filter_eq_self.2 fun _ _ => rfl
  simp [deleteMethodsAndLinks, Dict.filter, hall]

/-- Deleting no class changes nothing. -/
theorem deleteClasses_nil (s : RecordStore) : s.deleteClasses [] = s := by
  have hall {α : Type} (xs : List α) : xs.filter (fun _ => true) = xs :=
    List.filter_eq_self.2 fun _ _ => rfl
  unfold deleteClasses
  rw [deleteMethodsAndLinks_nil]
  simp [Dict.filter, Dict.mapValues, hall]

end CodeAtlas.RecordStore
