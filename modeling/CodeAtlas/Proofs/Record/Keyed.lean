import CodeAtlas.Proofs.Record.Reworded
import CodeAtlas.Record.Document

/-!
# Records saved again

A store that was read from a file may have rows without a class and links more than once, but
every record stands under its own ids. This file proves that of all stores that can come about,
and that saving a class with its rows as they once were puts them back exactly.
-/

namespace CodeAtlas.RecordStore

variable {s t : RecordStore} {c : String}

/-! ## Records under their ids -/

/-- Every class stands under its id, and every row under its class and its id, once. -/
structure Keyed (s : RecordStore) : Prop where
  classes : ∀ id r, s.getClass? id = some r → r.id = id
  nodup : ∀ id, (s.rowsOf id).keys.Nodup
  rows : ∀ id k r, (s.rowsOf id).get? k = some r → r.id = k ∧ r.classId = id

theorem Keyed.of_empty : RecordStore.empty.Keyed where
  classes id r h := by cases h
  nodup _ := List.nodup_nil
  rows id k r h := by cases h

/-- Links do not matter. -/
theorem Keyed.congr (hs : s.Keyed) (hclasses : t.classes = s.classes)
    (hmethods : t.methods = s.methods) : t.Keyed where
  classes id r h := hs.classes id r (by rwa [getClass?, hclasses] at h)
  nodup id := by
    rw [rowsOf, hmethods]
    exact hs.nodup id
  rows id k r h := hs.rows id k r (by rwa [rowsOf, hmethods] at h)

theorem Keyed.putClass (hs : s.Keyed) (r : ClassRecord) : (s.putClass r).Keyed where
  classes id x hget := by
    rcases getClass?_putClass_eq_some hget with ⟨hid, rfl⟩ | hget
    · exact hid.symm
    · exact hs.classes id x hget
  nodup := hs.nodup
  rows := hs.rows

theorem Keyed.putMethod (hs : s.Keyed) (m : MethodRecord) : (s.putMethod m).Keyed where
  classes := hs.classes
  nodup id := nodup_rowsOf_putMethod (hs.nodup id) m
  rows id k r hget := by
    rcases get?_rowsOf_putMethod_eq_some hget with ⟨hid, hk, rfl⟩ | hget
    · exact ⟨hk.symm, hid.symm⟩
    · exact hs.rows id k r hget

theorem Keyed.deleteMethodsAndLinks (hs : s.Keyed) (ids : List String) :
    (s.deleteMethodsAndLinks ids).Keyed where
  classes := hs.classes
  nodup id := by
    rw [rowsOf_deleteMethodsAndLinks]
    split
    · exact List.nodup_nil
    · exact hs.nodup id
  rows id k r hget := by
    rw [rowsOf_deleteMethodsAndLinks] at hget
    split at hget
    · cases hget
    · exact hs.rows id k r hget

theorem Keyed.deleteClasses (hs : s.Keyed) (ids : List String) : (s.deleteClasses ids).Keyed where
  classes id r hget := by
    rw [getClass?_deleteClasses] at hget
    split at hget
    · cases hget
    · exact hs.classes id r hget
  nodup := (hs.deleteMethodsAndLinks ids).nodup
  rows := (hs.deleteMethodsAndLinks ids).rows

/-- Whatever is written, an accepted write leaves every record under its ids. -/
theorem Keyed.write (hs : s.Keyed) {w : StoreWrite} (hw : s.write w = .ok t) : t.Keyed := by
  cases w with
  | saveClasses rs =>
    cases hw
    unfold RecordStore.saveClasses
    induction rs generalizing s with
    | nil => exact hs
    | cons r rest ih => exact ih (hs.putClass r)
  | saveMethods ms =>
    obtain ⟨rfl, -⟩ := saveMethods_eq_ok hw
    clear hw
    induction ms generalizing s with
    | nil => exact hs
    | cons m rest ih => exact ih (hs.putMethod m)
  | saveLinks ls =>
    cases hw
    exact hs.congr (classes_saveLinks s ls) (methods_saveLinks s ls)
  | deleteClasses ids =>
    cases hw
    exact hs.deleteClasses ids
  | deleteMethodsAndLinks ids =>
    cases hw
    exact hs.deleteMethodsAndLinks ids

/-- The document of a store may have any faults. -/
theorem Keyed.of_ofText? {text : Option String} (h : ofText? text = .ok s) : s.Keyed := by
  cases text with
  | none =>
    cases h
    exact .of_empty
  | some text =>
    obtain ⟨v, -, h⟩ := Outcome.bind_eq_ok.1 h
    obtain ⟨classes, -, h⟩ := Outcome.bind_eq_ok.1 h
    obtain ⟨s₁, hs₁, h⟩ := Outcome.bind_eq_ok.1 h
    obtain ⟨methods, -, h⟩ := Outcome.bind_eq_ok.1 h
    obtain ⟨s₂, hs₂, h⟩ := Outcome.bind_eq_ok.1 h
    obtain ⟨links, -, h⟩ := Outcome.bind_eq_ok.1 h
    have hclasses : s₁.Keyed := by
      refine Outcome.foldlM_keeps (fun b v _ c hb hc => ?_) .of_empty hs₁
      obtain ⟨r, -, hc⟩ := Outcome.bind_eq_ok.1 hc
      cases hc
      exact hb.putClass r
    have hmethods : s₂.Keyed := by
      refine Outcome.foldlM_keeps (fun b v _ c hb hc => ?_) hclasses hs₂
      obtain ⟨m, -, hc⟩ := Outcome.bind_eq_ok.1 hc
      cases hc
      exact hb.putMethod m
    refine Outcome.foldlM_keeps (fun b v _ c hb hc => ?_) hmethods h
    obtain ⟨l, -, hc⟩ := Outcome.bind_eq_ok.1 hc
    cases hc
    exact hb.congr rfl rfl

/-- The stores that can come about: from the text of a file, or without one, and by writes. -/
inductive Made : RecordStore → Prop
  | read {text : Option String} {s : RecordStore} (h : ofText? text = .ok s) : Made s
  | written {s t : RecordStore} {w : StoreWrite} (hs : Made s) (h : s.write w = .ok t) : Made t

theorem Made.keyed (hs : s.Made) : s.Keyed := by
  induction hs with
  | read h => exact .of_ofText? h
  | written _ h ih => exact ih.write h

/-! ## Saving again -/

theorem Keyed.classId_of_mem (hs : s.Keyed) {m : MethodRecord} (h : m ∈ s.methodsFor c) :
    m.classId = c := by
  obtain ⟨k, hk⟩ := (Dict.mem_values_iff (hs.nodup c) m).1 h
  exact (hs.rows c k m hk).2

/-- Saving a class as it is changes nothing. -/
theorem putClass_self {r : ClassRecord} (h : s.getClass? r.id = some r) : s.putClass r = s := by
  unfold putClass
  rw [Dict.insert_self h]

/-- The last class that is saved under an id stays. -/
theorem putClass_putClass {r x : ClassRecord} (hid : x.id = r.id) (s : RecordStore) :
    (s.putClass x).putClass r = s.putClass r := by
  unfold putClass
  rw [hid, Dict.insert_insert]

/-- Saving the rows of a class as they are changes nothing. -/
theorem Keyed.foldl_putMethod_self (hs : s.Keyed) (c : String) :
    (s.methodsFor c).foldl RecordStore.putMethod s = s := by
  cases hrows : s.methods.get? c with
  | none =>
    have hnone : s.methodsFor c = [] := by
      rw [methodsFor, Dict.getD_of_get?_eq_none _ hrows]
      rfl
    rw [hnone]
    rfl
  | some rows =>
    have hrowsOf : s.rowsOf c = rows := Dict.getD_of_get?_eq_some _ hrows
    have hkeys : rows.keys.Nodup := hrowsOf ▸ hs.nodup c
    have hkeyed : ∀ k m, rows.get? k = some m → m.id = k := fun k m hm =>
      (hs.rows c k m (hrowsOf ▸ hm)).1
    have hsame : (s.methodsFor c).foldl (fun d m => d.insert m.id m) rows = rows := by
      rw [methodsFor_eq_values, hrowsOf]
      have hmem : ∀ m ∈ rows.values, rows.get? m.id = some m := fun m hm => by
        obtain ⟨k, hk⟩ := (Dict.mem_values_iff hkeys m).1 hm
        rwa [hkeyed k m hk]
      generalize rows.values = ms at hmem
      induction ms with
      | nil => rfl
      | cons m rest ih =>
        rw [List.foldl_cons, Dict.insert_self (hmem m List.mem_cons_self)]
        exact ih fun x hx => hmem x (List.mem_cons_of_mem _ hx)
    have hmethods := methods_putMethods_of_class (fun m hm => hs.classId_of_mem hm) hrows
    rw [hsame, Dict.insert_self hrows] at hmethods
    have hall := classes_putMethods s (s.methodsFor c)
    have hlinks := links_putMethods s (s.methodsFor c)
    generalize (s.methodsFor c).foldl RecordStore.putMethod s = t at hmethods hall hlinks
    change (⟨t.classes, t.methods, t.links⟩ : RecordStore) = s
    rw [hall, hmethods, hlinks]

/-! ## Other classes -/

/-- Stores with the same record and the same rows of a class. -/
structure SameClass (c : String) (s t : RecordStore) : Prop where
  record : t.getClass? c = s.getClass? c
  rows : t.rowsOf c = s.rowsOf c

theorem SameClass.refl (c : String) (s : RecordStore) : SameClass c s s := ⟨rfl, rfl⟩

theorem SameClass.trans {u : RecordStore} (hst : SameClass c s t) (htu : SameClass c t u) :
    SameClass c s u :=
  ⟨htu.record.trans hst.record, htu.rows.trans hst.rows⟩

theorem SameClass.putClass {r : ClassRecord} (h : c ≠ r.id) (s : RecordStore) :
    SameClass c s (s.putClass r) :=
  ⟨(getClass?_putClass s r c).trans (if_neg h), rfl⟩

theorem SameClass.putMethods {ms : List MethodRecord} (h : ∀ m ∈ ms, m.classId ≠ c)
    (s : RecordStore) : SameClass c s (ms.foldl putMethod s) where
  record := by rw [getClass?, classes_putMethods, getClass?]
  rows := by
    have hnone : ms.filter (fun m => m.classId = c) = [] :=
      List.filter_eq_nil_iff.2 fun m hm => by simpa using h m hm
    rw [rowsOf_putMethods, hnone]
    rfl

end CodeAtlas.RecordStore
