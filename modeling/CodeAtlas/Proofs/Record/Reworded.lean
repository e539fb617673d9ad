import CodeAtlas.Proofs.Record.Reads

/-!
# Rewording stored classes

Writing an answer through changes one class record and its rows where they stand. Such changes
of different classes can be made in either order, which even the order of the records does not
tell.
-/

namespace CodeAtlas

namespace Dict

variable {α β : Type} [DecidableEq α] {d : Dict α β} {k j : α}

/-- Values of different keys that are there can be replaced in either order. -/
theorem insert_comm (hkj : k ≠ j) (hk : d.contains k = true) (hj : d.contains j = true)
    (b c : β) : (d.insert k b).insert j c = (d.insert j c).insert k b := by
  obtain ⟨es⟩ := d
  rw [contains_iff_mem_keys] at hk hj
  simp only [keys, insert, mk.injEq] at hk hj ⊢
  induction es with
  | nil => cases hk
  | cons e rest ih =>
    obtain ⟨a, v⟩ := e
    by_cases hak : a = k
    · simp [put, hak, hkj]
    · by_cases haj : a = j
      · simp [put, haj, Ne.symm hkj]
      · simp only [List.map_cons, List.mem_cons, Ne.symm hak, Ne.symm haj, false_or] at hk hj
        simp [put, hak, haj, ih hk hj]

/-- Replacing a value by itself changes nothing. -/
theorem insert_self {b : β} (h : d.get? k = some b) : d.insert k b = d := by
  obtain ⟨es⟩ := d
  simp only [get?, insert, mk.injEq] at h ⊢
  induction es with
  | nil => cases h
  | cons e rest ih =>
    obtain ⟨a, v⟩ := e
    by_cases hak : a = k
    · simpa [put, lookup, hak, eq_comm] using h
    · have hrest : lookup k rest = some b := by simpa [lookup, hak] using h
      simp [put, hak, ih hrest]

/-- Changes the value of a key, if it has one. -/
def modify (d : Dict α β) (k : α) (f : β → β) : Dict α β :=
  match d.get? k with
  | some b => d.insert k (f b)
  | none => d

theorem get?_modify (d : Dict α β) (k j : α) (f : β → β) :
    (d.modify k f).get? j = if j = k then (d.get? k).map f else d.get? j := by
  unfold modify
  split
  · next h => rw [get?_insert, h, Option.map_some]
  · next h => split <;> simp_all

/-- Values of different keys can be changed in either order. -/
theorem modify_comm (d : Dict α β) (hkj : k ≠ j) (f h : β → β) :
    (d.modify k f).modify j h = (d.modify j h).modify k f := by
  have hj := d.get?_modify k j f
  have hk := d.get?_modify j k h
  rw [if_neg (Ne.symm hkj)] at hj
  rw [if_neg hkj] at hk
  rw [modify.eq_def (d.modify k f), modify.eq_def (d.modify j h), hj, hk]
  cases hb : d.get? k with
  | none => simp [modify, hb]
  | some b =>
    cases hc : d.get? j with
    | none => simp [modify, hb, hc]
    | some c =>
      simp only [modify, hb, hc]
      exact insert_comm hkj (contains_of_get?_eq_some hb) (contains_of_get?_eq_some hc) _ _

end Dict

namespace RecordStore

variable {s : RecordStore} {c d : String}

/-- The store with one class record and the rows of its class changed where they stand. -/
def reword (c : String) (record : ClassRecord → ClassRecord)
    (rows : Dict String MethodRecord → Dict String MethodRecord) (s : RecordStore) : RecordStore :=
  { s with classes := s.classes.modify c record, methods := s.methods.modify c rows }

/-- Different classes can be reworded in either order. -/
theorem reword_comm (hcd : c ≠ d) (f h : ClassRecord → ClassRecord)
    (k l : Dict String MethodRecord → Dict String MethodRecord) (s : RecordStore) :
    reword d h l (reword c f k s) = reword c f k (reword d h l s) := by
  unfold reword
  rw [Dict.modify_comm _ hcd, Dict.modify_comm _ hcd]

/-- Rows of one class that has rows are put in where this class stands. -/
theorem methods_putMethods_of_class {rows : Dict String MethodRecord} {ms : List MethodRecord}
    (hclass : ∀ m ∈ ms, m.classId = c) (hrows : s.methods.get? c = some rows) :
    (ms.foldl putMethod s).methods =
      s.methods.insert c (ms.foldl (fun d m => d.insert m.id m) rows) := by
  induction ms generalizing s rows with
  | nil => exact (Dict.insert_self hrows).symm
  | cons m rest ih =>
    obtain rfl := hclass m (List.mem_cons_self ..)
    have hput : (s.putMethod m).methods = s.methods.insert m.classId (rows.insert m.id m) := by
      rw [putMethod, Dict.getD_of_get?_eq_some _ hrows]
    have hget : (s.putMethod m).methods.get? m.classId = some (rows.insert m.id m) := by
      rw [hput, Dict.get?_insert, if_pos rfl]
    rw [List.foldl_cons, ih (fun x hx => hclass x (List.mem_cons_of_mem _ hx)) hget, hput,
      Dict.insert_insert]
    rfl

end RecordStore

end CodeAtlas
