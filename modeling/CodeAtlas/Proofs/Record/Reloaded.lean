import CodeAtlas.Proofs.Graph.Written
import CodeAtlas.Proofs.Record.Integrity
import CodeAtlas.Proofs.Record.Rollback
import CodeAtlas.Record.Document

/-!
# Stores written and read again

The file of a store lists its classes, its methods and its links, each list without the groups
in which the store keeps them. Reading puts the rows into groups again. The groups come in the
order of their first rows, which is the order in which they were written, and a class that has
lost all of its methods or links is without a group. No answer and no written line depends on that.
-/

namespace CodeAtlas

/-! ## Records -/

namespace Json

theorem plain_ofOption_string (o : Option String) : (ofOption .string o).Plain := by
  cases o with
  | none => exact .null
  | some s => exact .string s

theorem plain_ofOption_int (o : Option Int) : (ofOption .int o).Plain := by
  cases o with
  | none => exact .null
  | some n => exact .int n

/-- A text that may be missing is read back from a field that may be null. -/
theorem asString?_ofOption (o : Option String) :
    asString? (some (ofOption .string o)) = .ok o := by
  cases o <;> rfl

theorem asInt?_ofOption (o : Option Int) : asInt? (some (ofOption .int o)) = .ok o := by
  cases o <;> rfl

/-- A list of texts is plain. -/
theorem plain_ofStrings (parts : List String) : (ofStrings parts).Plain :=
  plain_array_map fun s _ => .string s

/-- A list of texts is read back, an empty one as well. -/
theorem asStrings_ofStrings (parts : List String) :
    asStrings (some (ofStrings parts)) = .ok parts :=
  Coded.ofListed_array parts

end Json

theorem ClassRecord.plain_toJson (r : ClassRecord) : r.toJson.Plain := by
  refine .object (by simp) fun f hf => ?_
  simp only [List.mem_cons, List.not_mem_nil, or_false] at hf
  rcases hf with rfl | rfl | rfl | rfl | rfl | rfl | rfl
  · exact .string _
  · exact .string _
  · exact .string _
  · exact .string _
  · exact .string _
  · exact Json.plain_ofOption_string _
  · exact Json.plain_ofOption_string _

theorem MethodRecord.plain_toJson (r : MethodRecord) : r.toJson.Plain := by
  refine .object (by simp) fun f hf => ?_
  simp only [List.mem_cons, List.not_mem_nil, or_false] at hf
  rcases hf with rfl | rfl | rfl | rfl | rfl | rfl | rfl | rfl | rfl
  · exact .string _
  · exact .string _
  · exact .string _
  · exact Json.plain_ofOption_string _
  · exact Json.plain_ofStrings _
  · exact Json.plain_ofStrings _
  · exact Json.plain_ofOption_string _
  · exact Json.plain_ofOption_string _
  · exact Json.plain_ofOption_int _

theorem LinkRecord.plain_toJson (r : LinkRecord) : r.toJson.Plain := by
  refine .object (by simp) fun f hf => ?_
  simp only [List.mem_cons, List.not_mem_nil, or_false] at hf
  rcases hf with rfl | rfl | rfl | rfl
  · exact .string _
  · exact .string _
  · exact .int _
  · exact .string _

namespace RecordStore

/-- A written class record is read back. -/
theorem readClass_toJson (r : ClassRecord) : readClass r.toJson = .ok r := by
  refine Outcome.bind_eq_ok.2 ⟨_, rfl, Outcome.bind_eq_ok.2 ⟨r.kind, r.kind.ofField_name, ?_⟩⟩
  refine Outcome.bind_eq_ok.2 ⟨(), rfl, ?_⟩
  refine Outcome.bind_eq_ok.2 ⟨r.id, rfl, ?_⟩
  refine Outcome.bind_eq_ok.2 ⟨r.project, rfl, ?_⟩
  refine Outcome.bind_eq_ok.2 ⟨r.identifier, rfl, ?_⟩
  refine Outcome.bind_eq_ok.2 ⟨r.sourceFile, rfl, ?_⟩
  refine Outcome.bind_eq_ok.2 ⟨r.description, Json.asString?_ofOption _, ?_⟩
  exact Outcome.bind_eq_ok.2 ⟨r.commit, Json.asString?_ofOption _, rfl⟩

/-- A written method record is read back. -/
theorem readMethod_toJson (r : MethodRecord) : readMethod r.toJson = .ok r := by
  refine Outcome.bind_eq_ok.2 ⟨_, rfl, Outcome.bind_eq_ok.2 ⟨(), rfl, ?_⟩⟩
  refine Outcome.bind_eq_ok.2 ⟨r.id, rfl, ?_⟩
  refine Outcome.bind_eq_ok.2 ⟨r.classId, rfl, ?_⟩
  refine Outcome.bind_eq_ok.2 ⟨r.name, rfl, ?_⟩
  refine Outcome.bind_eq_ok.2 ⟨r.description, Json.asString?_ofOption _, ?_⟩
  refine Outcome.bind_eq_ok.2 ⟨r.businessLogic, Json.asStrings_ofStrings _, ?_⟩
  refine Outcome.bind_eq_ok.2 ⟨r.exceptions, Json.asStrings_ofStrings _, ?_⟩
  refine Outcome.bind_eq_ok.2 ⟨r.httpMethod, Json.asString?_ofOption _, ?_⟩
  refine Outcome.bind_eq_ok.2 ⟨r.httpPath, Json.asString?_ofOption _, ?_⟩
  exact Outcome.bind_eq_ok.2 ⟨r.lineNumber, Json.asInt?_ofOption _, rfl⟩

/-! ## Groups made of rows -/

variable {s : RecordStore}

/-- A store without the groups that have no members. -/
def compacted (s : RecordStore) : RecordStore where
  classes := s.classes
  methods := s.methods.filter fun _ rows => !rows.values.isEmpty
  links := s.links.filter fun _ ls => !ls.isEmpty

/-- Saving the classes of a store one after the other makes their table again. -/
theorem foldl_putClass (hs : s.Indexed) :
    s.classes.values.foldl putClass .empty = ⟨s.classes, .empty, .empty⟩ := by
  have hsteps (rs : List ClassRecord) (d : Dict String ClassRecord) :
      rs.foldl putClass ⟨d, .empty, .empty⟩ =
        ⟨rs.foldl (fun d r => d.insert r.id r) d, .empty, .empty⟩ := by
    induction rs generalizing d with
    | nil => rfl
    | cons r rest ih => exact ih _
  refine (hsteps s.classes.values .empty).trans ?_
  rw [Dict.foldl_insert_values hs.consistent.classes_nodup fun _ he => hs.classes_keyed he]

/-- Saving the methods of a store one after the other makes their groups again. -/
theorem foldl_putMethod (hs : s.Indexed) (t : RecordStore) (ht : t.methods = .empty) :
    (s.methods.values.flatMap Dict.values).foldl putMethod t =
      { t with methods := s.compacted.methods } := by
  have hsteps (rs : List MethodRecord) (t : RecordStore) : rs.foldl putMethod t =
      { t with
        methods := rs.foldl (Dict.gather (·.classId) (fun rows r => rows.insert r.id r) .empty)
          t.methods } := by
    induction rs generalizing t with
    | nil => rfl
    | cons r rest ih => exact ih (t.putMethod r)
  have hkeyed : ∀ e ∈ s.methods.entries, ∀ r ∈ e.2.values, r.classId = e.1 := by
    intro e he r hr
    rw [← hs.rowsOf_of_mem he] at hr
    exact classId_of_mem_methodsFor hs.consistent hr
  have hmade : ∀ e ∈ s.methods.entries,
      e.2.values.foldl (fun rows r => rows.insert r.id r) .empty = e.2 := by
    intro e he
    have hnodup := hs.consistent.rows_nodup e.1
    have hrows := hs.consistent.rows_keyed e.1
    rw [hs.rowsOf_of_mem he] at hnodup hrows
    refine Dict.foldl_insert_values hnodup fun f hf => ?_
    exact (hrows f.1 f.2 ((Dict.mem_entries_iff hnodup f.1 f.2).1 hf)).1
  have hgroups := Dict.foldl_gather_members (·.classId) (fun rows r => rows.insert r.id r) .empty
    Dict.values hs.methods_nodup hkeyed hmade
  rw [hsteps, ht, hgroups]
  rfl

/-- Adding the links of a store one after the other makes their lists again. -/
theorem foldl_appendLink (hs : s.Indexed) (t : RecordStore) (ht : t.links = .empty) :
    (s.links.values.flatMap id).foldl appendLink t = { t with links := s.compacted.links } := by
  have hsteps (ls : List LinkRecord) (t : RecordStore) : ls.foldl appendLink t =
      { t with
        links := ls.foldl (Dict.gather (·.classId) (fun ls l => ls ++ [l]) []) t.links } := by
    induction ls generalizing t with
    | nil => rfl
    | cons l rest ih => exact ih (t.appendLink l)
  have hkeyed : ∀ e ∈ s.links.entries, ∀ l ∈ e.2, l.classId = e.1 := by
    intro e he l hl
    rw [← hs.linksFor_of_mem he] at hl
    exact hs.consistent.links_owned e.1 l hl
  have happend (ls done : List LinkRecord) :
      ls.foldl (fun ls l => ls ++ [l]) done = done ++ ls := by
    induction ls generalizing done with
    | nil => simp
    | cons l rest ih => simp [ih]
  have hgroups := Dict.foldl_gather_members LinkRecord.classId (fun ls l => ls ++ [l]) [] id
    hs.links_nodup hkeyed fun e _ => happend e.2 []
  rw [hsteps, ht, hgroups]
  rfl

/-! ## Stores -/

theorem plain_toJson (s : RecordStore) : s.toJson.Plain := by
  have hrows {α : Type} {write : α → Json} (hwrite : ∀ r, (write r).Plain) (rs : List α) :
      (Json.array (rs.map write)).Plain := by
    refine .array fun v hv => ?_
    obtain ⟨r, -, rfl⟩ := List.mem_map.1 hv
    exact hwrite r
  refine .object (by simp) fun f hf => ?_
  simp only [List.mem_cons, List.not_mem_nil, or_false] at hf
  rcases hf with rfl | rfl | rfl
  · exact hrows ClassRecord.plain_toJson _
  · rw [← List.map_flatMap]
    exact hrows MethodRecord.plain_toJson _
  · rw [← List.map_flatMap]
    exact hrows LinkRecord.plain_toJson _

/-- What is written of an indexed store is read as the store without empty groups. -/
theorem Indexed.ofJson_toJson (hs : s.Indexed) : ofJson s.toJson = .ok s.compacted := by
  have hclasses : (s.classes.values.map ClassRecord.toJson).foldlM
      (fun t c => do return putClass t (← readClass c)) .empty =
        .ok ⟨s.classes, .empty, .empty⟩ := by
    rw [← foldl_putClass hs]
    refine Outcome.foldlM_map (fun t r => ?_) _ _
    rw [readClass_toJson]
    rfl
  have hmethods : (s.methods.values.flatMap fun ms => ms.values.map MethodRecord.toJson).foldlM
      (fun t m => do return putMethod t (← readMethod m)) ⟨s.classes, .empty, .empty⟩ =
        .ok ⟨s.classes, s.compacted.methods, .empty⟩ := by
    have hgroups := foldl_putMethod hs ⟨s.classes, .empty, .empty⟩ rfl
    rw [← hgroups, ← List.map_flatMap]
    refine Outcome.foldlM_map (fun t r => ?_) _ _
    rw [readMethod_toJson]
    rfl
  have hlinks : (s.links.values.flatMap fun ls => ls.map LinkRecord.toJson).foldlM
      (fun t l => do return appendLink t (← readLink l))
      ⟨s.classes, s.compacted.methods, .empty⟩ = .ok s.compacted := by
    have hgroups := foldl_appendLink hs ⟨s.classes, s.compacted.methods, .empty⟩ rfl
    rw [← List.map_flatMap]
    refine (Outcome.foldlM_map (fun t r => ?_) _ _).trans (congrArg Except.ok hgroups)
    rfl
  refine Outcome.bind_eq_ok.2 ⟨_, rfl, Outcome.bind_eq_ok.2 ⟨_, hclasses, ?_⟩⟩
  refine Outcome.bind_eq_ok.2 ⟨_, rfl, Outcome.bind_eq_ok.2 ⟨_, hmethods, ?_⟩⟩
  exact Outcome.bind_eq_ok.2 ⟨_, rfl, hlinks⟩

/-- Groups without members show in no answer. -/
theorem Indexed.sameAnswers_compacted (hs : s.Indexed) : SameAnswers s s.compacted where
  findByProject _ := rfl
  getClass? _ := rfl
  methodsFor id := Dict.members_getD_filter Dict.values hs.methods_nodup Dict.values_empty id
  linksFor id := Dict.members_getD_filter (fun ls => ls) hs.links_nodup rfl id

/-- They do not show in what is written either. -/
theorem toText_compacted (s : RecordStore) : s.compacted.toText = s.toText := by
  have hmethods : (s.compacted.methods.values.flatMap fun ms =>
      ms.values.map MethodRecord.toJson) =
        s.methods.values.flatMap fun ms => ms.values.map MethodRecord.toJson := by
    rw [← List.map_flatMap, ← List.map_flatMap]
    exact congrArg _ (Dict.flatMap_values_filter Dict.values s.methods)
  have hlinks : (s.compacted.links.values.flatMap fun ls => ls.map LinkRecord.toJson) =
      s.links.values.flatMap fun ls => ls.map LinkRecord.toJson := by
    rw [← List.map_flatMap, ← List.map_flatMap]
    exact congrArg _ (Dict.flatMap_values_filter (fun ls => ls) s.links)
  unfold toText toJson
  rw [hmethods, hlinks]
  rfl

/-- Whatever was written to the empty store, accepted or not, its file is read as a store that
answers everything that can be asked in the same way and has the same file. -/
theorem reread_of_writes (ws : List StoreWrite) :
    let s := (StoreAccess.attemptAll ws (.ofStore .empty)).2.store
    ∃ t, ofText? (some s.toText) = .ok t ∧ SameAnswers s t ∧ t.toText = s.toText := by
  intro s
  have hs : s.Indexed := .of_writes ws
  refine ⟨s.compacted, ?_, hs.sameAnswers_compacted, s.toText_compacted⟩
  have hread : Json.read s.toText = .ok s.toJson :=
    s.plain_toJson.read_pretty_append rfl (Json.delimited_newline 0 [])
  exact Outcome.bind_eq_ok.2 ⟨s.toJson, hread, hs.ofJson_toJson⟩

end RecordStore

end CodeAtlas
