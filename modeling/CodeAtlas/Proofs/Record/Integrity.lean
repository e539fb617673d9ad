import CodeAtlas.Proofs.Record.Confined
import Mathlib.Data.List.Nodup

/-!
# Integrity of the store

The tables of the store are written in any order, and a write may be refused. Whatever was asked
for, every method and every link stands in the group of its own class, once, and the class of a
method is stored. Deleting classes takes away what mentions them, wherever it stands, and
nothing else. Methods of an unknown class are refused before anything is written.
-/

namespace CodeAtlas

/-! ## Groups and their members -/

namespace Dict

variable {α β γ : Type}

/-- The members of the groups that a dictionary holds, each with the key of its group. -/
def rows (members : β → List γ) (d : Dict α β) : List (α × γ) :=
  d.entries.flatMap fun e => (members e.2).map fun c => (e.1, c)

/-- With distinct keys, the rows under a key are the members of the group found there. -/
theorem mem_rows [DecidableEq α] {members : β → List γ} {d : Dict α β} (hnodup : d.keys.Nodup)
    {dflt : β} (hdflt : members dflt = []) {k : α} {c : γ} :
    (k, c) ∈ d.rows members ↔ c ∈ members (d.getD k dflt) := by
  simp only [rows, List.mem_flatMap, List.mem_map, Prod.mk.injEq]
  constructor
  · rintro ⟨⟨j, b⟩, he, x, hx, rfl, rfl⟩
    have hget := (mem_entries_iff hnodup j b).1 he
    rwa [getD_of_get?_eq_some _ hget]
  · intro hc
    cases hget : d.get? k with
    | none =>
      rw [getD_of_get?_eq_none _ hget, hdflt] at hc
      cases hc
    | some b =>
      rw [getD_of_get?_eq_some _ hget] at hc
      exact ⟨(k, b), (mem_entries_iff hnodup k b).2 hget, c, hc, rfl, rfl⟩

/-- No row is repeated if no key is, and no member of a group. -/
theorem nodup_rows {members : β → List γ} {d : Dict α β} (hnodup : d.keys.Nodup)
    (hmembers : ∀ e ∈ d.entries, (members e.2).Nodup) : (d.rows members).Nodup := by
  unfold rows
  rw [List.nodup_flatMap]
  refine ⟨fun e he => (hmembers e he).map fun _ _ heq => (Prod.mk.inj heq).2, ?_⟩
  refine List.Pairwise.imp (fun hne => ?_) (List.pairwise_map.1 hnodup)
  rintro ⟨k, c⟩ hleft hright
  obtain ⟨_, -, heq⟩ := List.mem_map.1 hleft
  obtain ⟨_, -, heq'⟩ := List.mem_map.1 hright
  exact hne ((Prod.mk.inj heq).1.trans (Prod.mk.inj heq').1.symm)

/-- Groups are kept or left out with their rows. -/
theorem rows_filterKeys (members : β → List γ) (d : Dict α β) (p : α → Bool) :
    (d.filter fun k _ => p k).rows members = (d.rows members).filter fun e => p e.1 := by
  obtain ⟨es⟩ := d
  simp only [rows, filter]
  induction es with
  | nil => rfl
  | cons e rest ih =>
    rw [List.flatMap_cons, List.filter_append, ← ih, List.filter_cons, List.filter_map]
    cases hp : p e.1 <;> simp [Function.comp_def, hp]

/-- Groups that lose some members lose the rows of those. -/
theorem rows_mapValues (members : β → List γ) (d : Dict α β) {f : α → β → β} {q : γ → Bool}
    (hf : ∀ k b, members (f k b) = (members b).filter q) :
    (d.mapValues f).rows members = (d.rows members).filter fun e => q e.2 := by
  obtain ⟨es⟩ := d
  simp only [rows, mapValues, List.flatMap_map, List.filter_flatMap, List.filter_map, hf]
  rfl

end Dict

/-! ## Writes that are asked for -/

namespace StoreAccess

/-- Asks for writes one after the other, whatever becomes of each. -/
def attemptAll : List StoreWrite → StoreM (List (Outcome Unit))
  | [] => pure []
  | w :: ws => do
    let outcome ← write w
    let outcomes ← attemptAll ws
    return outcome :: outcomes

theorem attemptAll_cons (w : StoreWrite) (ws : List StoreWrite) (a : StoreAccess) :
    (attemptAll (w :: ws) a).2 = (attemptAll ws (write w a).2).2 := rfl

/-- What every accepted write keeps holds after any writes. -/
theorem keeps_attemptAll {P : RecordStore → Prop}
    (hstep : ∀ (s t : RecordStore) (w : StoreWrite), P s → s.write w = .ok t → P t)
    (ws : List StoreWrite) {a : StoreAccess} (ha : P a.store) :
    P (attemptAll ws a).2.store := by
  induction ws generalizing a with
  | nil => exact ha
  | cons w rest ih =>
    rw [attemptAll_cons]
    apply ih
    rcases write_cases w a with ⟨-, hsame⟩ | ⟨-, hok⟩
    · rw [hsame]
      exact ha
    · exact hstep _ _ w ha hok

/-- Asking for writes does not change the schedule of refusals. -/
theorem Unrefused.attemptAll {a : StoreAccess} (ha : a.Unrefused) (ws : List StoreWrite) :
    (attemptAll ws a).2.Unrefused := by
  induction ws generalizing a with
  | nil => exact ha
  | cons w rest ih =>
    rw [attemptAll_cons]
    exact ih ((refusal_write w a).trans ha)

end StoreAccess

namespace RecordStore

variable {s t : RecordStore}

/-! ## One group for each class -/

/-- A consistent store in which no class has two groups of methods or two groups of links. -/
structure Indexed (s : RecordStore) : Prop where
  consistent : s.Consistent
  methods_nodup : s.methods.keys.Nodup
  links_nodup : s.links.keys.Nodup

theorem Indexed.of_empty : RecordStore.empty.Indexed :=
  ⟨.of_empty, List.nodup_nil, List.nodup_nil⟩

theorem nodup_keys_putMethods (hs : s.methods.keys.Nodup) (rs : List MethodRecord) :
    (rs.foldl putMethod s).methods.keys.Nodup := by
  induction rs generalizing s with
  | nil => exact hs
  | cons r rest ih => exact ih (s := s.putMethod r) (Dict.nodup_keys_insert hs _ _)

theorem nodup_keys_saveLinks (hs : s.links.keys.Nodup) (ls : List LinkRecord) :
    (s.saveLinks ls).links.keys.Nodup := by
  unfold saveLinks
  induction ls generalizing s with
  | nil => exact hs
  | cons l rest ih => exact ih (s := s.putLink l) (Dict.nodup_keys_insert hs _ _)

/-- Saving classes touches no method and no link. -/
theorem saveClasses_eq (s : RecordStore) (rs : List ClassRecord) :
    s.saveClasses rs = { s with classes := (s.saveClasses rs).classes } := by
  unfold saveClasses
  induction rs generalizing s with
  | nil => rfl
  | cons r rest ih => exact ih (s.putClass r)

/-- Every write that is accepted leaves one group of each sort for each class. -/
theorem Indexed.write (hs : s.Indexed) {w : StoreWrite} (hw : s.write w = .ok t) : t.Indexed := by
  refine ⟨hs.consistent.write hw, ?_, ?_⟩
  · cases w with
    | saveClasses rs =>
      cases hw
      rw [saveClasses_eq]
      exact hs.methods_nodup
    | saveMethods rs =>
      rw [(saveMethods_eq_ok hw).1]
      exact nodup_keys_putMethods hs.methods_nodup rs
    | saveLinks ls =>
      cases hw
      rw [methods_saveLinks]
      exact hs.methods_nodup
    | deleteClasses ids =>
      cases hw
      exact Dict.nodup_keys_filterKeys hs.methods_nodup _
    | deleteMethodsAndLinks ids =>
      cases hw
      exact Dict.nodup_keys_filterKeys hs.methods_nodup _
  · cases w with
    | saveClasses rs =>
      cases hw
      rw [saveClasses_eq]
      exact hs.links_nodup
    | saveMethods rs =>
      rw [(saveMethods_eq_ok hw).1, links_putMethods]
      exact hs.links_nodup
    | saveLinks ls =>
      cases hw
      exact nodup_keys_saveLinks hs.links_nodup ls
    | deleteClasses ids =>
      cases hw
      rw [deleteClasses, Dict.keys_mapValues]
      exact Dict.nodup_keys_filterKeys hs.links_nodup _
    | deleteMethodsAndLinks ids =>
      cases hw
      exact Dict.nodup_keys_filterKeys hs.links_nodup _

/-- So does any sequence of writes to the empty store, accepted or refused. -/
theorem Indexed.of_writes (ws : List StoreWrite) :
    (StoreAccess.attemptAll ws (.ofStore .empty)).2.store.Indexed :=
  StoreAccess.keeps_attemptAll (fun _ _ _ hs hw => hs.write hw) ws .of_empty

theorem Indexed.rowsOf_of_mem (hs : s.Indexed) {e : String × Dict String MethodRecord}
    (he : e ∈ s.methods.entries) : s.rowsOf e.1 = e.2 :=
  Dict.getD_of_get?_eq_some _ ((Dict.mem_entries_iff hs.methods_nodup e.1 e.2).1 he)

theorem Indexed.linksFor_of_mem (hs : s.Indexed) {e : String × List LinkRecord}
    (he : e ∈ s.links.entries) : s.linksFor e.1 = e.2 :=
  Dict.getD_of_get?_eq_some _ ((Dict.mem_entries_iff hs.links_nodup e.1 e.2).1 he)

/-! ## Rows -/

/-- Every method row with the class in whose group it stands. -/
def methodRows (s : RecordStore) : List (String × MethodRecord) := s.methods.rows Dict.values

/-- Every link with the class in whose group it stands. -/
def linkRows (s : RecordStore) : List (String × LinkRecord) := s.links.rows id

theorem mem_methodRows (hs : s.Indexed) {id : String} {m : MethodRecord} :
    (id, m) ∈ s.methodRows ↔ m ∈ s.methodsFor id :=
  Dict.mem_rows hs.methods_nodup Dict.values_empty

theorem mem_linkRows (hs : s.Indexed) {id : String} {l : LinkRecord} :
    (id, l) ∈ s.linkRows ↔ l ∈ s.linksFor id :=
  Dict.mem_rows hs.links_nodup rfl

/-- A store in which every record stands in its own place, once. -/
structure Intact (s : RecordStore) : Prop where
  classes_keyed : ∀ e ∈ s.classes.entries, e.2.id = e.1
  classes_once : (s.classes.values.map (·.id)).Nodup
  /-- A method stands in the group of its class, and that class is stored. -/
  methods_placed : ∀ e ∈ s.methodRows, e.2.classId = e.1 ∧ s.classes.contains e.1 = true
  methods_once : (s.methodRows.map fun e => (e.1, e.2.id)).Nodup
  links_placed : ∀ e ∈ s.linkRows, e.2.classId = e.1
  links_once : s.linkRows.Nodup

theorem Indexed.classes_keyed (hs : s.Indexed) {e : String × ClassRecord}
    (he : e ∈ s.classes.entries) : e.2.id = e.1 :=
  hs.consistent.classes_keyed e.1 e.2
    ((Dict.mem_entries_iff hs.consistent.classes_nodup e.1 e.2).1 he)

theorem Indexed.methods_placed (hs : s.Indexed) {e : String × MethodRecord}
    (he : e ∈ s.methodRows) : e.2.classId = e.1 ∧ s.classes.contains e.1 = true := by
  have hmem : e.2 ∈ s.methodsFor e.1 := (mem_methodRows hs).1 he
  refine ⟨classId_of_mem_methodsFor hs.consistent hmem, ?_⟩
  cases hget : s.getClass? e.1 with
  | some r => exact Dict.contains_of_get?_eq_some hget
  | none =>
    rw [methodsFor_eq_values, hs.consistent.rows_stored e.1 hget] at hmem
    cases hmem

theorem Indexed.links_placed (hs : s.Indexed) {e : String × LinkRecord} (he : e ∈ s.linkRows) :
    e.2.classId = e.1 :=
  hs.consistent.links_owned e.1 e.2 ((mem_linkRows hs).1 he)

/-- The groups of an indexed store hold every record in its own place. -/
theorem Indexed.intact (hs : s.Indexed) : s.Intact where
  classes_keyed _ he := hs.classes_keyed he
  classes_once := by
    have hkeys : s.classes.values.map (·.id) = s.classes.keys := by
      unfold Dict.values Dict.keys
      rw [List.map_map]
      exact List.map_congr_left fun _ he => hs.classes_keyed he
    exact hkeys ▸ hs.consistent.classes_nodup
  methods_placed _ he := hs.methods_placed he
  methods_once := by
    have hrows : (s.methodRows.map fun e => (e.1, e.2.id)) =
        s.methods.rows fun rows => rows.values.map (·.id) := by
      unfold methodRows Dict.rows
      rw [List.map_flatMap]
      simp only [List.map_map, Function.comp_def]
    rw [hrows]
    refine Dict.nodup_rows hs.methods_nodup fun e he => ?_
    have hids := nodup_ids_methodsFor hs.consistent e.1
    rwa [methodsFor_eq_values, hs.rowsOf_of_mem he] at hids
  links_placed _ he := hs.links_placed he
  links_once := by
    refine Dict.nodup_rows hs.links_nodup fun e he => ?_
    have hlinks := hs.consistent.links_nodup e.1
    rwa [hs.linksFor_of_mem he] at hlinks

/-! ## Deleting classes -/

/-- A store in which no record mentions any of some classes. -/
structure Unmentioned (ids : List String) (s : RecordStore) : Prop where
  classes : ∀ e ∈ s.classes.entries, e.1 ∉ ids ∧ e.2.id ∉ ids
  methods : ∀ e ∈ s.methodRows, e.1 ∉ ids ∧ e.2.classId ∉ ids
  links : ∀ e ∈ s.linkRows, e.1 ∉ ids ∧ e.2.classId ∉ ids ∧ e.2.targetId ∉ ids

/-- The records of the second store are those of the first that mention none of some classes,
in their order and in their places. -/
structure KeepsOthers (ids : List String) (s t : RecordStore) : Prop where
  classes : t.classes.entries = s.classes.entries.filter fun e => !ids.contains e.2.id
  methods : t.methodRows = s.methodRows.filter fun e => !ids.contains e.2.classId
  links : t.linkRows = s.linkRows.filter fun e =>
    !ids.contains e.2.classId && !ids.contains e.2.targetId

/-- What is left by a deletion is what mentions none of the deleted classes. -/
theorem Indexed.keepsOthers_deleteClasses (hs : s.Indexed) (ids : List String) :
    KeepsOthers ids s (s.deleteClasses ids) where
  classes := List.filter_congr fun e he => by rw [hs.classes_keyed he]
  methods := by
    have hrows : (s.deleteClasses ids).methodRows = s.methodRows.filter fun e =>
        !ids.contains e.1 :=
      Dict.rows_filterKeys Dict.values s.methods _
    rw [hrows]
    exact List.filter_congr fun e he => by rw [(hs.methods_placed he).1]
  links := by
    have hrows : (s.deleteClasses ids).linkRows =
        (s.linkRows.filter fun e => !ids.contains e.1).filter fun e =>
          !ids.contains e.2.targetId := by
      have hkeys := Dict.rows_filterKeys id s.links fun k => !ids.contains k
      unfold linkRows
      rw [← hkeys]
      exact Dict.rows_mapValues id _ fun _ _ => rfl
    rw [hrows, List.filter_filter]
    exact List.filter_congr fun e he => by rw [hs.links_placed he, Bool.and_comm]

/-- Nothing that is left mentions a deleted class. -/
theorem Indexed.unmentioned_deleteClasses (hs : s.Indexed) (ids : List String) :
    (s.deleteClasses ids).Unmentioned ids := by
  have hkept := hs.keepsOthers_deleteClasses ids
  refine ⟨fun e he => ?_, fun e he => ?_, fun e he => ?_⟩
  · rw [hkept.classes] at he
    obtain ⟨he, hout⟩ := List.mem_filter.1 he
    rw [← hs.classes_keyed he]
    simpa using hout
  · rw [hkept.methods] at he
    obtain ⟨he, hout⟩ := List.mem_filter.1 he
    rw [← (hs.methods_placed he).1]
    simpa using hout
  · rw [hkept.links] at he
    obtain ⟨he, hout⟩ := List.mem_filter.1 he
    rw [← hs.links_placed he]
    simpa using hout

/-! ## Refused methods -/

/-- Methods of which some name an unknown class are refused by the names of all such classes. -/
theorem saveMethods_of_unknown {rs : List MethodRecord}
    (h : ∃ r ∈ rs, s.getClass? r.classId = none) :
    s.saveMethods rs = .error (.unknownClasses (Text.sortedSet (s.unknownClasses rs))) := by
  obtain ⟨r, hr, hnone⟩ := h
  have hmem : r.classId ∈ s.unknownClasses rs := by
    have hout : s.classes.contains r.classId = false := by
      unfold Dict.contains
      rw [show s.classes.get? r.classId = none from hnone]
      rfl
    exact List.mem_filter.2 ⟨List.mem_map_of_mem hr, by rw [hout]; rfl⟩
  unfold saveMethods
  cases hunknown : s.unknownClasses rs with
  | nil =>
    rw [hunknown] at hmem
    cases hmem
  | cons id ids => rfl

end RecordStore

/-! ## Histories of writes -/

namespace StoreAccess

open RecordStore

/-- After any writes to the empty store, in any order and accepted or not, every record stands in
its own place, once. Deleting classes is accepted then: no record that is left mentions
one of them, and all records that did not are as before. Methods of which some name an unknown
class are refused, by the names of those classes, and the whole store is as it was. -/
theorem integrity_of_writes (ws : List StoreWrite) :
    let a := (attemptAll ws (ofStore .empty)).2
    a.store.Intact ∧
      (∀ ids, (write (.deleteClasses ids) a).1 = .ok () ∧
        (write (.deleteClasses ids) a).2.store.Unmentioned ids ∧
        KeepsOthers ids a.store (write (.deleteClasses ids) a).2.store) ∧
      ∀ rs, (∃ r ∈ rs, a.store.getClass? r.classId = none) →
        (write (.saveMethods rs) a).1 =
            .error (.unknownClasses (Text.sortedSet (a.store.unknownClasses rs))) ∧
          (write (.saveMethods rs) a).2.store = a.store := by
  intro a
  have hindexed : a.store.Indexed := .of_writes ws
  have hempty : (ofStore .empty).Unrefused := rfl
  have hfree : a.Unrefused := hempty.attemptAll ws
  refine ⟨hindexed.intact, fun ids => ?_, fun rs hunknown => ?_⟩
  · obtain ⟨hok, hstore⟩ := hfree.write_eq (w := .deleteClasses ids) rfl
    rw [hstore]
    exact ⟨hok, hindexed.unmentioned_deleteClasses ids, hindexed.keepsOthers_deleteClasses ids⟩
  · exact hfree.write_eq_error (saveMethods_of_unknown hunknown)

/-- Three classes of one project with links across them. One method and one link come twice, a
class is saved again, and the methods of an unknown class are refused in between. -/
def crossedWrites : List StoreWrite :=
  let unit (id : String) (kind : Kind) : ClassRecord := ⟨id, "p", id, "", kind, none, none⟩
  let method (id classId name : String) : MethodRecord :=
    ⟨id, classId, name, none, [], [], none, none, none⟩
  [.saveClasses [unit "a" .other, unit "b" .other, unit "c" .other],
    .saveMethods [method "1" "a" "run", method "1" "a" "stop", method "2" "b" "run"],
    .saveLinks [⟨"a", "run", 0, "b"⟩, ⟨"a", "run", 0, "b"⟩, ⟨"b", "run", 0, "a"⟩,
      ⟨"c", "run", 0, "b"⟩, ⟨"a", "run", 1, "c"⟩],
    .saveMethods [method "3" "c" "run", method "4" "gone" "run"],
    .saveClasses [unit "a" .service]]

/-- The store that the crossed writes leave. -/
def crossedStore : StoreAccess := (attemptAll crossedWrites (ofStore .empty)).2

/-- Deleting a class to which two others have links, and saving methods of an unknown class, in
the store that the crossed writes leave. -/
theorem integrity_of_crossedWrites :
    (attemptAll crossedWrites (ofStore .empty)).1.map Except.isOk =
        [true, true, true, false, true] ∧
      (crossedStore.store.methodRows.map fun e => (e.1, e.2.name)) =
        [("a", "stop"), ("b", "run")] ∧
      crossedStore.store.linkRows.length = 4 ∧
      (write (.deleteClasses ["b"]) crossedStore).2.store.linkRows =
        [("a", ⟨"a", "run", 1, "c"⟩)] ∧
      (write (.deleteClasses ["b"]) crossedStore).2.store.Unmentioned ["b"] ∧
      ∀ m : MethodRecord, m.classId = "gone" →
        (write (.saveMethods [m]) crossedStore).2.store = crossedStore.store := by
  have houtcomes : (attemptAll crossedWrites (ofStore .empty)).1.map Except.isOk =
      [true, true, true, false, true] := by
    decide +kernel
  have hmethods : (crossedStore.store.methodRows.map fun e => (e.1, e.2.name)) =
      [("a", "stop"), ("b", "run")] := by
    decide +kernel
  have hlinks : crossedStore.store.linkRows.length = 4 := by decide +kernel
  have hleft : (write (.deleteClasses ["b"]) crossedStore).2.store.linkRows =
      [("a", ⟨"a", "run", 1, "c"⟩)] := by
    decide +kernel
  have hunknown : crossedStore.store.getClass? "gone" = none := by decide +kernel
  have hmain := integrity_of_writes crossedWrites
  rw [← crossedStore] at hmain
  obtain ⟨-, hdeleted, hrefused⟩ := hmain
  refine ⟨houtcomes, hmethods, hlinks, hleft, (hdeleted ["b"]).2.1, fun m hm => ?_⟩
  have hsome : ∃ r ∈ [m], crossedStore.store.getClass? r.classId = none := by
    refine ⟨m, List.mem_singleton.2 rfl, ?_⟩
    rw [hm]
    exact hunknown
  exact (hrefused [m] hsome).2

end StoreAccess

end CodeAtlas
