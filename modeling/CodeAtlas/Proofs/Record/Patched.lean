import CodeAtlas.Proofs.Record.Confined

/-!
# Records that are restated

When answers are written back, stored classes are saved again under their ids with other texts,
and so are rows of their methods. This file names what such writes leave as it is, accepted or
refused: which units are stored, all links, and everything about the other classes.
-/

namespace CodeAtlas

namespace RecordStore

variable {s t : RecordStore} {p : String}

/-! ## Units -/

/-- Which units of which projects are stored, under which ids and in which order. -/
def units (s : RecordStore) : List (String × String × String) :=
  s.classes.toList.map fun e => (e.1, e.2.project, e.2.identifier)

/-- The identifiers of a project's classes. -/
def identifiersOf (s : RecordStore) (p : String) : List String :=
  (s.findByProject p).map (·.identifier)

/-- Whether a project has at most one class for each identifier. -/
def Distinct (s : RecordStore) (p : String) : Prop := (s.identifiersOf p).Nodup

theorem identifiersOf_eq (s : RecordStore) (p : String) :
    s.identifiersOf p = (s.units.filter fun u => u.2.1 = p).map (·.2.2) := by
  unfold identifiersOf findByProject units Dict.values Dict.toList
  rw [List.filter_map, List.filter_map, List.map_map, List.map_map]
  rfl

/-- Where the same units are stored, each id has a class of the same unit. -/
theorem exists_getClass?_of_units (h : t.units = s.units) {id : String} {r : ClassRecord}
    (hget : s.getClass? id = some r) :
    ∃ r', t.getClass? id = some r' ∧ r'.project = r.project ∧ r'.identifier = r.identifier := by
  have hlookup (es : List (String × ClassRecord)) :
      Dict.lookup id (es.map fun e => (e.1, e.2.project, e.2.identifier)) =
        (Dict.lookup id es).map fun r => (r.project, r.identifier) := by
    induction es with
    | nil => rfl
    | cons e rest ih =>
      simp only [List.map_cons, Dict.lookup]
      split
      · rfl
      · exact ih
  have hsame := congrArg (Dict.lookup id) h
  unfold units Dict.toList at hsame
  rw [hlookup, hlookup] at hsame
  change (t.getClass? id).map _ = (s.getClass? id).map _ at hsame
  rw [hget, Option.map_some] at hsame
  obtain ⟨r', hr', heq⟩ := Option.map_eq_some_iff.1 hsame
  obtain ⟨hproject, hidentifier⟩ := Prod.mk.inj heq
  exact ⟨r', hr', hproject, hidentifier⟩

/-- A class saved again as the same unit stays where it stands. -/
theorem units_putClass {r old : ClassRecord} (hget : s.getClass? r.id = some old)
    (hproject : r.project = old.project) (hidentifier : r.identifier = old.identifier) :
    (s.putClass r).units = s.units := by
  have hput (es : List (String × ClassRecord)) (hes : Dict.lookup r.id es = some old) :
      (Dict.put r.id r es).map (fun e => (e.1, e.2.project, e.2.identifier)) =
        es.map fun e => (e.1, e.2.project, e.2.identifier) := by
    induction es with
    | nil => cases hes
    | cons e rest ih =>
      obtain ⟨k, v⟩ := e
      simp only [Dict.lookup] at hes
      simp only [Dict.put]
      split
      · next hk =>
        rw [if_pos hk] at hes
        obtain rfl := Option.some.inj hes
        simp [hproject, hidentifier]
      · next hk =>
        rw [if_neg hk] at hes
        rw [List.map_cons, List.map_cons, ih hes]
  exact hput s.classes.entries hget

/-! ## Writes that restate -/

/-- A write that saves stored classes again as the same units, or rows of methods, of certain
classes only. -/
def Restates (s : RecordStore) (S : String → Prop) : StoreWrite → Prop
  | .saveClasses rs => ∀ r ∈ rs, S r.id ∧ ∃ old, s.getClass? r.id = some old ∧
      r.project = old.project ∧ r.identifier = old.identifier
  | .saveMethods rs => ∀ r ∈ rs, S r.classId
  | _ => False

/-- A store in which nothing has changed but texts of certain classes. -/
structure Patched (S : String → Prop) (s t : RecordStore) : Prop where
  consistent : t.Consistent
  units : t.units = s.units
  classes : ∀ c, ¬S c → t.getClass? c = s.getClass? c
  methods : ∀ c, ¬S c → t.methodsFor c = s.methodsFor c
  links : ∀ c, t.linksFor c = s.linksFor c

variable {S : String → Prop}

theorem Patched.refl (hs : s.Consistent) : Patched S s s :=
  ⟨hs, rfl, fun _ _ => rfl, fun _ _ => rfl, fun _ => rfl⟩

theorem Patched.trans {u : RecordStore} (h : Patched S s t) (h' : Patched S t u) :
    Patched S s u :=
  ⟨h'.consistent, h'.units.trans h.units, fun c hc => (h'.classes c hc).trans (h.classes c hc),
    fun c hc => (h'.methods c hc).trans (h.methods c hc), fun c => (h'.links c).trans (h.links c)⟩

/-- The classes with which a patch has to do may be more. -/
theorem Patched.mono {S' : String → Prop} (h : Patched S s t) (hS : ∀ c, S c → S' c) :
    Patched S' s t :=
  ⟨h.consistent, h.units, fun c hc => h.classes c fun hin => hc (hS c hin),
    fun c hc => h.methods c fun hin => hc (hS c hin), h.links⟩

theorem Patched.saveClasses (hs : s.Consistent) {rs : List ClassRecord}
    (hrs : s.Restates S (.saveClasses rs)) : Patched S s (s.saveClasses rs) where
  consistent := hs.saveClasses rs
  units := by
    induction rs generalizing s with
    | nil => rfl
    | cons r rest ih =>
      obtain ⟨-, old, hget, hproject, hidentifier⟩ := hrs r (List.mem_cons_self ..)
      have hfirst := units_putClass hget hproject hidentifier
      rw [saveClasses_cons, ih (hs.putClass r) fun x hx => ?_, hfirst]
      obtain ⟨hS, xold, hxget, hxproject, hxidentifier⟩ := hrs x (List.mem_cons_of_mem _ hx)
      obtain ⟨x', hx', hp, hi⟩ := exists_getClass?_of_units hfirst hxget
      exact ⟨hS, x', hx', hxproject.trans hp.symm, hxidentifier.trans hi.symm⟩
  classes c hc := by
    refine getClass?_saveClasses_of_not_mem fun hmem => ?_
    obtain ⟨r, hr, rfl⟩ := List.mem_map.1 hmem
    exact hc (hrs r hr).1
  methods c _ := methodsFor_saveClasses s rs c
  links c := linksFor_saveClasses s rs c

theorem Patched.saveMethods (hs : s.Consistent) {rs : List MethodRecord}
    (hrs : s.Restates S (.saveMethods rs)) (hsave : s.saveMethods rs = .ok t) : Patched S s t := by
  have hconsistent := hs.saveMethods hsave
  obtain ⟨rfl, -⟩ := saveMethods_eq_ok hsave
  refine ⟨hconsistent, ?_, fun c _ => ?_, fun c hc => ?_, fun c => ?_⟩
  · unfold RecordStore.units
    rw [classes_putMethods]
  · unfold getClass?
    rw [classes_putMethods]
  · have hnone : rs.filter (fun r => r.classId = c) = [] := by
      rw [List.filter_eq_nil_iff]
      intro r hr heq
      rw [decide_eq_true_eq] at heq
      exact hc (heq ▸ hrs r hr)
    rw [methodsFor_eq_values, rowsOf_putMethods, hnone]
    rfl
  · unfold linksFor
    rw [links_putMethods]

end RecordStore

namespace StoreAccess

open RecordStore

variable {a : StoreAccess} {S : String → Prop}

/-- A write that restates, accepted or refused, patches the store. -/
theorem patched_write (ha : a.store.Consistent) {w : StoreWrite} (hw : a.store.Restates S w) :
    Patched S a.store (StoreAccess.write w a).2.store := by
  rcases write_cases w a with ⟨-, hstore⟩ | ⟨-, hok⟩
  · rw [hstore]
    exact .refl ha
  · cases w with
    | saveClasses rs =>
      rw [← Except.ok.inj hok]
      exact .saveClasses ha hw
    | saveMethods rs => exact .saveMethods ha hw hok
    | saveLinks ls => exact hw.elim
    | deleteClasses ids => exact hw.elim
    | deleteMethodsAndLinks ids => exact hw.elim

end StoreAccess

end CodeAtlas
