import CodeAtlas.Analysis.Fresh
import CodeAtlas.Proofs.Graph.Answers

/-!
# Staged records

Before anything is written, class and method records are made under fresh ids and nodes are
tied to their records. This file says which records these are and what staging changes: the
number of issued ids in the store, and the ties in the graph.
-/

namespace CodeAtlas

open StoreAccess

/-! ## Ids in a row -/

/-- The ids that are issued next after a number of them. -/
def StoreAccess.idsFrom (n count : Nat) : List String :=
  (List.range' (n + 1) count).map idOfNumber

theorem nodup_idsFrom (n count : Nat) : (idsFrom n count).Nodup := by
  have hrange : (List.range' (n + 1) count).Nodup := List.nodup_range'
  exact List.pairwise_map.2 (hrange.imp fun hne heq => hne (idOfNumber_inj heq))

theorem mem_idsFrom {n count : Nat} {id : String} (h : id ∈ idsFrom n count) :
    ∃ k, n < k ∧ k ≤ n + count ∧ id = idOfNumber k := by
  obtain ⟨k, hk, rfl⟩ := List.mem_map.1 h
  obtain ⟨hlo, hhi⟩ := List.mem_range'_1.1 hk
  exact ⟨k, by omega, by omega, rfl⟩

theorem idsFrom_succ (n count : Nat) :
    idsFrom n (count + 1) = idOfNumber (n + 1) :: idsFrom (n + 1) count := rfl

/-! ## Staged classes -/

/-- Ties nodes to class records. -/
def Graph.bindAll (g : Graph) (rs : List ClassRecord) : Graph :=
  rs.foldl (fun g r => g.bindClassId r.identifier r.id) g

section BindAll

variable (g : Graph) (rs : List ClassRecord)

/-- Ties are all that tying changes. -/
theorem Graph.bindAll_eq : ∃ ids, g.bindAll rs = { g with classIds := ids } := by
  unfold Graph.bindAll
  induction rs generalizing g with
  | nil => exact ⟨g.classIds, rfl⟩
  | cons r rest ih =>
    obtain ⟨ids, hids⟩ := ih (g.bindClassId r.identifier r.id)
    refine ⟨ids, ?_⟩
    rw [List.foldl_cons, hids]
    unfold Graph.bindClassId
    split <;> rfl

@[simp] theorem Graph.nodes_bindAll : (g.bindAll rs).nodes = g.nodes := by
  obtain ⟨ids, h⟩ := g.bindAll_eq rs
  rw [h]

@[simp] theorem Graph.info_bindAll : (g.bindAll rs).info = g.info := by
  obtain ⟨ids, h⟩ := g.bindAll_eq rs
  rw [h]

@[simp] theorem Graph.methods_bindAll : (g.bindAll rs).methods = g.methods := by
  obtain ⟨ids, h⟩ := g.bindAll_eq rs
  rw [h]

@[simp] theorem Graph.links_bindAll : (g.bindAll rs).links = g.links := by
  obtain ⟨ids, h⟩ := g.bindAll_eq rs
  rw [h]

theorem Graph.bindAll_cons (r : ClassRecord) :
    g.bindAll (r :: rs) = (g.bindClassId r.identifier r.id).bindAll rs := rfl

variable {rs}

/-- Nodes that no record names keep their ties. -/
theorem Graph.classId?_bindAll_of_not_mem {id : String} (h : id ∉ rs.map (·.identifier)) :
    (g.bindAll rs).classId? id = g.classId? id := by
  induction rs generalizing g with
  | nil => rfl
  | cons r rest ih =>
    simp only [List.map_cons, List.mem_cons, not_or] at h
    rw [bindAll_cons, ih _ h.2, classId?_bindClassId, if_neg fun hr => h.1 hr.1]

/-- Each of several differently named nodes is tied to its record. -/
theorem Graph.classId?_bindAll_of_mem (hnodup : (rs.map (·.identifier)).Nodup) {r : ClassRecord}
    (hr : r ∈ rs) (hnode : g.contains r.identifier = true) :
    (g.bindAll rs).classId? r.identifier = some r.id := by
  induction rs generalizing g with
  | nil => cases hr
  | cons a rest ih =>
    obtain ⟨ha, hrest⟩ := List.nodup_cons.1 hnodup
    rw [bindAll_cons]
    rcases List.mem_cons.1 hr with rfl | hr
    · rw [classId?_bindAll_of_not_mem _ ha, classId?_bindClassId, if_pos ⟨rfl, hnode⟩]
    · refine ih _ hrest hr ?_
      rwa [contains_congr (nodes_bindClassId ..)]

end BindAll

/-- Class records for nodes with their files, under the ids after a number of issued ones. -/
def stagedRecords (project : String) (commit : Option String) (g : Graph) :
    Nat → List (String × String) → List ClassRecord
  | _, [] => []
  | n, (identifier, file) :: rest =>
    ⟨idOfNumber (n + 1), project, identifier, file, g.kind identifier, none, commit⟩ ::
      stagedRecords project commit g (n + 1) rest

theorem stagedRecords_congr {project : String} {commit : Option String} {g h : Graph}
    (hinfo : h.info = g.info) (n : Nat) (files : List (String × String)) :
    stagedRecords project commit h n files = stagedRecords project commit g n files := by
  induction files generalizing n with
  | nil => rfl
  | cons f rest ih =>
    obtain ⟨identifier, file⟩ := f
    simp only [stagedRecords, ih, Graph.kind, Graph.nodeInfo?, hinfo]

/-- Staging classes issues an id for each and ties the nodes to their records. -/
theorem stageClasses_eq (project : String) (commit : Option String) (g : Graph)
    (files : List (String × String)) (a : StoreAccess) :
    FreshAnalysis.stageClasses project commit g files a =
      ((g.bindAll (stagedRecords project commit g a.issued files),
        stagedRecords project commit g a.issued files),
        { a with issued := a.issued + files.length }) := by
  induction files generalizing g a with
  | nil => rfl
  | cons f rest ih =>
    obtain ⟨identifier, file⟩ := f
    have hinfo := g.info_bindClassId identifier (idOfNumber (a.issued + 1))
    have hrest := ih (g.bindClassId identifier (idOfNumber (a.issued + 1))) (newId a).2
    rw [stagedRecords_congr hinfo] at hrest
    simp only [FreshAnalysis.stageClasses, bind, StateT.bind, newId] at hrest ⊢
    rw [hrest]
    have hcount : a.issued + 1 + rest.length = a.issued + (rest.length + 1) := by omega
    simp only [hcount]
    rfl

section StagedRecords

variable (project : String) (commit : Option String) (g : Graph)

theorem ids_stagedRecords (n : Nat) (files : List (String × String)) :
    (stagedRecords project commit g n files).map (·.id) = idsFrom n files.length := by
  induction files generalizing n with
  | nil => rfl
  | cons f rest ih =>
    rw [stagedRecords, List.map_cons, ih, List.length_cons, idsFrom_succ]

theorem files_stagedRecords (n : Nat) (files : List (String × String)) :
    (stagedRecords project commit g n files).map (fun r => (r.identifier, r.sourceFile)) =
      files := by
  induction files generalizing n with
  | nil => rfl
  | cons f rest ih => rw [stagedRecords, List.map_cons, ih]

/-- A staged record belongs to the project, and has the node's kind and no description. -/
theorem mem_stagedRecords {n : Nat} {files : List (String × String)} {r : ClassRecord}
    (h : r ∈ stagedRecords project commit g n files) :
    r.project = project ∧ r.kind = g.kind r.identifier ∧ r.description = none ∧
      r.id ∈ idsFrom n files.length := by
  have hid : r.id ∈ idsFrom n files.length := by
    rw [← ids_stagedRecords project commit g]
    exact List.mem_map_of_mem h
  have hfields : r.project = project ∧ r.kind = g.kind r.identifier ∧ r.description = none := by
    clear hid
    induction files generalizing n with
    | nil => cases h
    | cons f rest ih =>
      rcases List.mem_cons.1 h with rfl | h
      · exact ⟨rfl, rfl, rfl⟩
      · exact ih h
  exact ⟨hfields.1, hfields.2.1, hfields.2.2, hid⟩

end StagedRecords

/-! ## Staged methods -/

/-- The records of methods under the ids after a number of issued ones. -/
def rowsFrom (classId : String) : Nat → List Method → List MethodRecord
  | _, [] => []
  | n, m :: ms =>
    MethodRecord.ofMethod (idOfNumber (n + 1)) classId m :: rowsFrom classId (n + 1) ms

/-- The records of the methods of stored nodes. -/
def allRowsFrom (g : Graph) : Nat → List ClassRecord → List MethodRecord
  | _, [] => []
  | n, r :: rs =>
    rowsFrom r.id n (g.methodsOf r.identifier) ++
      allRowsFrom g (n + (g.methodsOf r.identifier).length) rs

theorem stageMethods_eq (classId : String) (ms : List Method) (a : StoreAccess) :
    stageMethods classId ms a =
      (rowsFrom classId a.issued ms, { a with issued := a.issued + ms.length }) := by
  induction ms generalizing a with
  | nil => rfl
  | cons m rest ih =>
    have hrest := ih (newId a).2
    simp only [stageMethods, bind, StateT.bind, newId] at hrest ⊢
    rw [hrest]
    have hcount : a.issued + 1 + rest.length = a.issued + (rest.length + 1) := by omega
    simp only [hcount]
    rfl

@[simp] theorem length_rowsFrom (classId : String) (n : Nat) (ms : List Method) :
    (rowsFrom classId n ms).length = ms.length := by
  induction ms generalizing n with
  | nil => rfl
  | cons m rest ih => rw [rowsFrom, List.length_cons, ih, List.length_cons]

/-- Staging methods issues an id for each. -/
theorem stageAllMethods_eq (g : Graph) (rs : List ClassRecord) (a : StoreAccess) :
    FreshAnalysis.stageAllMethods g rs a =
      (allRowsFrom g a.issued rs,
        { a with issued := a.issued + (allRowsFrom g a.issued rs).length }) := by
  induction rs generalizing a with
  | nil => rfl
  | cons r rest ih =>
    have hrest := ih { a with issued := a.issued + (g.methodsOf r.identifier).length }
    simp only [FreshAnalysis.stageAllMethods, bind, StateT.bind, stageMethods_eq] at hrest ⊢
    rw [hrest]
    simp only [allRowsFrom, List.length_append, length_rowsFrom, Nat.add_assoc]
    rfl

theorem classId_of_mem_rowsFrom {classId : String} {n : Nat} {ms : List Method}
    {m : MethodRecord} (h : m ∈ rowsFrom classId n ms) : m.classId = classId := by
  induction ms generalizing n with
  | nil => cases h
  | cons x rest ih =>
    rcases List.mem_cons.1 h with rfl | h
    · rfl
    · exact ih h

theorem classId_of_mem_allRowsFrom {g : Graph} {n : Nat} {rs : List ClassRecord}
    {m : MethodRecord} (h : m ∈ allRowsFrom g n rs) : ∃ r ∈ rs, m.classId = r.id := by
  induction rs generalizing n with
  | nil => cases h
  | cons r rest ih =>
    rcases List.mem_append.1 h with h | h
    · exact ⟨r, List.mem_cons_self .., classId_of_mem_rowsFrom h⟩
    · obtain ⟨t, ht, heq⟩ := ih h
      exact ⟨t, List.mem_cons_of_mem _ ht, heq⟩

/-! ## Ties -/

/-- Whether all ids to which nodes are tied have a property. -/
def Graph.BoundTo (P : String → Prop) (g : Graph) : Prop := ∀ id c, g.classId? id = some c → P c

theorem Graph.BoundTo.mono {P Q : String → Prop} {g : Graph} (h : g.BoundTo P)
    (hPQ : ∀ c, P c → Q c) : g.BoundTo Q :=
  fun id c hc => hPQ c (h id c hc)

theorem Graph.BoundTo.congr {P : String → Prop} {g h : Graph} (hg : g.BoundTo P)
    (hclassIds : h.classIds = g.classIds) : h.BoundTo P := by
  intro id c hc
  unfold Graph.classId? at hc
  rw [hclassIds] at hc
  exact hg id c hc

theorem Graph.BoundTo.of_empty {P : String → Prop} {g : Graph} (h : g.classIds = .empty) :
    g.BoundTo P := by
  intro id c hc
  unfold Graph.classId? at hc
  rw [h] at hc
  cases hc

theorem Graph.BoundTo.bindClassId {P : String → Prop} {g : Graph} (h : g.BoundTo P) {id c : String}
    (hc : P c) : (g.bindClassId id c).BoundTo P := by
  unfold Graph.bindClassId
  split
  · intro j d hd
    unfold Graph.classId? at hd
    rw [Dict.get?_insert] at hd
    split at hd
    · cases hd
      exact hc
    · exact h j d hd
  · exact h

theorem Graph.BoundTo.bindAll {P : String → Prop} {g : Graph} (h : g.BoundTo P)
    {rs : List ClassRecord} (hrs : ∀ r ∈ rs, P r.id) : (g.bindAll rs).BoundTo P := by
  unfold Graph.bindAll
  induction rs generalizing g with
  | nil => exact h
  | cons r rest ih =>
    exact ih (h.bindClassId (hrs r (List.mem_cons_self ..)))
      fun x hx => hrs x (List.mem_cons_of_mem _ hx)

/-- The links that are stored for a graph lead between ids to which nodes are tied. -/
theorem Graph.BoundTo.mem_allLinks {P : String → Prop} {g : Graph} (h : g.BoundTo P)
    {rs : List ClassRecord} {l : LinkRecord} (hl : l ∈ FreshAnalysis.allLinks g rs) :
    P l.classId ∧ P l.targetId := by
  obtain ⟨r, -, hl⟩ := List.mem_flatMap.1 hl
  unfold Graph.linkRecords at hl
  cases howner : g.classId? r.identifier with
  | none =>
    rw [howner] at hl
    cases hl
  | some owner =>
    rw [howner] at hl
    obtain ⟨⟨name, links⟩, -, hl⟩ := List.mem_flatMap.1 hl
    obtain ⟨link, -, hl⟩ := List.mem_filterMap.1 hl
    cases htarget : g.classId? link.target with
    | none =>
      rw [htarget] at hl
      cases hl
    | some target =>
      rw [htarget] at hl
      cases hl
      exact ⟨h _ _ howner, h _ _ htarget⟩

end CodeAtlas
