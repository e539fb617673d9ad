import CodeAtlas.Proofs.Agreement.Basic
import CodeAtlas.Proofs.Run.Writing

/-!
# Agreement after answers are written back

An answer changes a node's kind, its description and the texts of its methods, and the same is
written to its records, where rows are found by the names of methods. This file proves that
graph and store keep agreeing on a store that refuses nothing, since overloads share their texts
before and after.
-/

namespace CodeAtlas.Graph

open RecordStore StoreAccess

variable {g : Graph} {a : StoreAccess} {s : RecordStore} {p id : String}

/-! ## The graph with an answer -/

theorem withAnswer_known (g : Graph) (id : String) (x : Answer) :
    (g.withAnswer id x).2 = g.contains id := by
  unfold withAnswer applyEnrichment
  split
  · next hid =>
    dsimp only
    rw [hid]
    split
    · split <;> rfl
    · rfl
  · next hid => simpa using hid

theorem withAnswer_of_unknown (h : ¬g.contains id = true) (x : Answer) :
    (g.withAnswer id x).1 = g := by
  unfold withAnswer applyEnrichment
  rw [if_neg h]

@[simp] theorem nodes_withAnswer (g : Graph) (id : String) (x : Answer) :
    (g.withAnswer id x).1.nodes = g.nodes := by
  unfold withAnswer
  rw [applyEnrichment_eq]
  split <;> simp

@[simp] theorem links_withAnswer (g : Graph) (id : String) (x : Answer) :
    (g.withAnswer id x).1.links = g.links := by
  unfold withAnswer
  rw [applyEnrichment_eq]
  split <;> simp

/-- An answer is about its own node. -/
theorem nodeInfo?_withAnswer_of_ne (x : Answer) {j : String} (h : j ≠ id) :
    (g.withAnswer id x).1.nodeInfo? j = g.nodeInfo? j := by
  unfold withAnswer
  rw [applyEnrichment_eq]
  split
  · rw [nodeInfo?_congr (info_setMethods ..), nodeInfo?_setNodeInfo, if_neg fun hj => h hj.1]
  · rw [nodeInfo?_setNodeInfo, if_neg fun hj => h hj.1]

/-- The texts of an answer go to the methods that they name. -/
theorem methodsOf_withAnswer (g : Graph) (id : String) (x : Answer) (j : String) :
    (g.withAnswer id x).1.methodsOf j =
      if j = id ∧ g.contains id = true then enrichMethods (g.methodsOf id) x.methodTexts
      else g.methodsOf j := by
  have hcontains (i : NodeInfo) : (g.setNodeInfo id i).contains id = g.contains id :=
    contains_congr (nodes_setNodeInfo ..) id
  unfold withAnswer
  rw [applyEnrichment_eq]
  split
  · rw [methodsOf_setMethods, hcontains, methodsOf_congr (methods_setNodeInfo ..)]
  · next hnone =>
    rw [methodsOf_congr (methods_setNodeInfo ..)]
    split
    · next hj =>
      have hempty : g.methodsOf id = [] :=
        Dict.getD_of_get?_eq_none _ (Option.not_isSome_iff_eq_none.1 hnone)
      rw [hj.1, hempty]
      rfl
    · rfl

/-- One method with the text that names it. -/
def withTextOf (texts : Dict String MethodText) (m : Method) : Method :=
  match texts.get? m.name with
  | some t => m.withText t
  | none => m

theorem enrichMethods_eq (ms : List Method) (texts : Dict String MethodText) :
    enrichMethods ms texts = ms.map (withTextOf texts) := by
  unfold enrichMethods withTextOf
  refine List.map_congr_left fun m _ => ?_
  cases texts.get? m.name <;> rfl

theorem name_withTextOf (texts : Dict String MethodText) (m : Method) :
    (withTextOf texts m).name = m.name := by
  unfold withTextOf
  split <;> rfl

/-- A text changes nothing but texts. -/
theorem withTextOf_eq (texts : Dict String MethodText) (m : Method) :
    { m with
      description := (withTextOf texts m).description
      businessLogic := (withTextOf texts m).businessLogic } = withTextOf texts m := by
  unfold withTextOf
  split <;> rfl

/-- Texts that are given by name leave methods of one name with the same texts. -/
theorem sharedTexts_enrichMethods {ms : List Method} (h : Method.SharedTexts ms)
    (texts : Dict String MethodText) : Method.SharedTexts (enrichMethods ms texts) := by
  intro m' hm' n' hn' heq
  obtain ⟨m, hm, rfl⟩ := List.mem_map.1 (enrichMethods_eq ms texts ▸ hm')
  obtain ⟨n, hn, rfl⟩ := List.mem_map.1 (enrichMethods_eq ms texts ▸ hn')
  rw [name_withTextOf, name_withTextOf] at heq
  unfold withTextOf
  rw [heq]
  cases texts.get? n.name with
  | some t => exact ⟨rfl, rfl⟩
  | none => exact h m hm n hn heq

/-! ## Coherence -/

section Coherent

variable (h : g.Coherent)
include h

theorem Coherent.withAnswer (id : String) (x : Answer) : (g.withAnswer id x).1.Coherent where
  wellFormed := h.wellFormed.applyEnrichment ..
  shared j := by
    rw [methodsOf_withAnswer]
    split
    · exact sharedTexts_enrichMethods (h.shared id) _
    · exact h.shared j

theorem Coherent.setNodeInfo (id : String) (i : NodeInfo) : (g.setNodeInfo id i).Coherent where
  wellFormed := h.wellFormed.setNodeInfo id i
  shared j := by
    rw [methodsOf_congr (methods_setNodeInfo ..)]
    exact h.shared j

theorem Coherent.setMethods (id : String) {ms : List Method} (hms : Method.SharedTexts ms) :
    (g.setMethods id ms).Coherent where
  wellFormed := h.wellFormed.setMethods id ms
  shared j := by
    rw [methodsOf_setMethods]
    split
    · exact hms
    · exact h.shared j

/-- A node that is put back gets texts that were shared. -/
theorem Coherent.revertNode {now : Graph} (hnow : now.Coherent) (id : String) :
    (g.revertNode now id).Coherent := by
  unfold Graph.revertNode
  dsimp only
  split
  · exact (hnow.setNodeInfo id _).setMethods id (h.shared id)
  · exact hnow.setMethods id (h.shared id)

/-- An answer that is written back, accepted or refused, leaves a graph coherent. -/
theorem Coherent.writeBackOne (id : String) (x : Answer) (a : StoreAccess) :
    (g.writeBackOne id x a).1.1.Coherent := by
  have happlied : (g.applyAnswer id x a).1.1 = (g.withAnswer id x).1 := by
    rw [applyAnswer_eq]
    split <;> rfl
  have hnow := h.withAnswer id x
  rw [← happlied] at hnow
  rw [writeBackOne_eq]
  split
  · next hrun =>
    rw [hrun] at hnow
    exact hnow
  · next hrun =>
    rw [hrun] at hnow
    exact h.revertNode hnow id

theorem Coherent.writeBack (answers : List (String × Answer)) (a : StoreAccess) :
    (g.writeBack answers a).1.1.Coherent := by
  induction answers generalizing g a with
  | nil => exact h
  | cons first rest ih => exact ih (h.writeBackOne first.1 first.2 a) _

/-- However an enricher answers and whatever the store refuses, enriching leaves a graph
coherent. -/
theorem Coherent.enrich {σ : Type} {w w' : Workspace σ} {enricher : Enricher σ}
    {repository : Path} {language : String} {ids : List String} {r : Graph × EnrichmentCounts}
    (hrun : (g.enrich enricher repository language ids).run w = (.ok r, w')) : r.1.Coherent := by
  obtain ⟨_, _, outcome, w₂, -, -, hgraph, -⟩ := enrich_eq_ok hrun
  rw [hgraph]
  exact h.writeBack _ _

end Coherent

/-! ## The store with an answer -/

/-- The row of a method with the texts that a node's methods of its name have. -/
def updatedRow? (g : Graph) (id : String) (r : MethodRecord) : Option MethodRecord :=
  ((Dict.ofList ((g.methodsOf id).map fun m => (m.name, m))).get? r.name).map fun m =>
    { r with description := m.description, businessLogic := m.businessLogic }

theorem updatedMethods_eq (g : Graph) (id : String) (rows : List MethodRecord) :
    g.updatedMethods id rows = rows.filterMap (g.updatedRow? id) := rfl

theorem updatedRow?_eq_some {r u : MethodRecord} (h : g.updatedRow? id r = some u) :
    u.id = r.id ∧ u.classId = r.classId := by
  obtain ⟨m, -, rfl⟩ := Option.map_eq_some_iff.1 h
  exact ⟨rfl, rfl⟩

/-- A row gets the texts of its own method, since methods of one name share theirs. -/
theorem method_updatedRow {ms : List Method} (hshared : Method.SharedTexts (g.methodsOf id))
    {texts : Dict String MethodText} (hms : g.methodsOf id = enrichMethods ms texts)
    {r : MethodRecord} (hr : r.method ∈ ms) :
    ((g.updatedRow? id r).getD r).method = withTextOf texts r.method := by
  have hown : withTextOf texts r.method ∈ g.methodsOf id := by
    rw [hms, enrichMethods_eq]
    exact List.mem_map_of_mem hr
  have hname : (withTextOf texts r.method).name = r.name := name_withTextOf texts r.method
  have hkey : (Dict.ofList ((g.methodsOf id).map fun m => (m.name, m))).contains r.name =
      true := by
    rw [Dict.contains_ofList, List.map_map]
    exact List.mem_map.2 ⟨_, hown, hname⟩
  obtain ⟨m, hm⟩ := Dict.exists_get?_of_contains hkey
  obtain ⟨x, hx, heq⟩ := List.mem_map.1 (Dict.mem_of_get?_ofList hm)
  obtain ⟨hxname, rfl⟩ := Prod.mk.inj heq
  obtain ⟨hdescription, hlogic⟩ := hshared x hx _ hown (hxname.trans hname.symm)
  unfold updatedRow?
  rw [hm, Option.map_some, Option.getD_some, hdescription, hlogic]
  exact withTextOf_eq texts r.method

/-- The store after a node's kind, description and texts were written through. -/
def storeThrough (g : Graph) (id : String) (r : ClassRecord) (s : RecordStore) : RecordStore :=
  (g.updatedMethods id (s.methodsFor r.id)).foldl putMethod (s.saveClasses [g.updatedClass id r])

/-- A store that refuses nothing takes what is written through for a stored class. -/
theorem writeThrough_of_unrefused (ha : a.store.Consistent) (hfree : a.Unrefused)
    {r : ClassRecord} (hid : g.classId? id = some r.id)
    (hget : a.store.getClass? r.id = some r) :
    ∃ b, g.writeThrough id a = (.ok (), b) ∧ b.store = g.storeThrough id r a.store ∧
      b.Unrefused := by
  obtain ⟨b, hb, hbfree, hclasses⟩ :=
    hfree.writeAll_cons_eq (w := .saveClasses [g.updatedClass id r]) rfl []
  have hrows : b.store.methodsFor r.id = a.store.methodsFor r.id := by
    rw [hb, methodsFor_saveClasses]
  have hstored : b.store.getClass? r.id = some (g.updatedClass id r) := by
    rw [hb]
    exact (getClass?_putClass ..).trans (if_pos rfl)
  have hthrough : g.writeThrough id a = g.saveTexts id r.id b := by
    rw [writeThrough_eq_of_tied hid, hget]
    unfold classWrites
    dsimp only
    rw [hclasses]
    rfl
  rw [hthrough]
  rw [saveTexts_eq, hrows]
  unfold storeThrough
  cases hupdated : g.updatedMethods id (a.store.methodsFor r.id) with
  | nil => exact ⟨b, rfl, hb, hbfree⟩
  | cons m rows =>
    have hknown : ∀ x ∈ m :: rows, b.store.classes.contains x.classId = true := by
      intro x hx
      obtain ⟨old, hold, -, hclass⟩ := mem_updatedMethods (hupdated ▸ hx)
      rw [hclass, classId_of_mem_methodsFor ha hold]
      exact Dict.contains_of_get?_eq_some hstored
    obtain ⟨hok, hstore⟩ := hbfree.write_eq
      (w := .saveMethods (m :: rows)) (saveMethods_of_known hknown)
    refine ⟨_, Prod.ext hok rfl, ?_, (refusal_write _ b).trans hbfree⟩
    rw [hstore, hb]

section StoreThrough

variable {r : ClassRecord}

theorem getClass?_storeThrough (g : Graph) (id : String) (r : ClassRecord) (s : RecordStore)
    (c : String) :
    (g.storeThrough id r s).getClass? c =
      if c = r.id then some (g.updatedClass id r) else s.getClass? c := by
  unfold storeThrough getClass?
  rw [classes_putMethods]
  exact getClass?_putClass s (g.updatedClass id r) c

theorem linksFor_storeThrough (g : Graph) (id : String) (r : ClassRecord) (s : RecordStore)
    (c : String) : (g.storeThrough id r s).linksFor c = s.linksFor c := by
  rw [← linksFor_saveClasses s [g.updatedClass id r]]
  unfold storeThrough linksFor
  rw [links_putMethods]

theorem methodsFor_storeThrough_of_ne (hs : s.Consistent) {c : String} (hc : c ≠ r.id) :
    (g.storeThrough id r s).methodsFor c = s.methodsFor c := by
  have hnone : (g.updatedMethods id (s.methodsFor r.id)).filter (fun m => m.classId = c) = [] := by
    rw [List.filter_eq_nil_iff]
    intro m hm heq
    obtain ⟨old, hold, -, hclass⟩ := mem_updatedMethods hm
    rw [decide_eq_true_eq, hclass, classId_of_mem_methodsFor hs hold] at heq
    exact hc heq.symm
  unfold storeThrough
  rw [methodsFor_eq_values, rowsOf_putMethods, hnone, rowsOf_saveClasses]
  rfl

/-- The rows of the node's own class are replaced where they stand. -/
theorem methodsFor_storeThrough (hs : s.Consistent) :
    (g.storeThrough id r s).methodsFor r.id =
      (s.methodsFor r.id).map fun m => (g.updatedRow? id m).getD m := by
  have hall : (g.updatedMethods id (s.methodsFor r.id)).filter (fun m => m.classId = r.id) =
      g.updatedMethods id (s.methodsFor r.id) := by
    rw [List.filter_eq_self]
    intro m hm
    obtain ⟨old, hold, -, hclass⟩ := mem_updatedMethods hm
    rw [decide_eq_true_eq, hclass, classId_of_mem_methodsFor hs hold]
  unfold storeThrough
  rw [methodsFor_eq_values, rowsOf_putMethods, hall, rowsOf_saveClasses, updatedMethods_eq]
  refine Dict.values_foldl_insert_in_place (·.id) _ (fun v u hu => (updatedRow?_eq_some hu).1)
    (hs.rows_nodup r.id) fun e he => ?_
  exact (hs.rows_keyed r.id e.1 e.2
    ((Dict.mem_entries_iff (hs.rows_nodup r.id) e.1 e.2).1 he)).1

end StoreThrough

/-! ## Agreement -/

/-- What an answer changes in a graph: nothing but one node's kind, description and texts. -/
structure Answered (id : String) (x : Answer) (g now : Graph) : Prop where
  nodes : now.nodes = g.nodes
  classIds : now.classIds = g.classIds
  links : now.links = g.links
  info : ∀ j, j ≠ id → now.nodeInfo? j = g.nodeInfo? j
  methods : ∀ j, now.methodsOf j =
    if j = id ∧ g.contains id = true then enrichMethods (g.methodsOf id) x.methodTexts
    else g.methodsOf j

theorem answered_withAnswer (g : Graph) (id : String) (x : Answer) :
    Answered id x g (g.withAnswer id x).1 where
  nodes := g.nodes_withAnswer id x
  classIds := g.classIds_withAnswer id x
  links := g.links_withAnswer id x
  info _ hj := nodeInfo?_withAnswer_of_ne x hj
  methods := g.methodsOf_withAnswer id x

section Answered

variable {now : Graph} {x : Answer} {r : ClassRecord} (h : Answered r.identifier x g now)
include h

theorem Answered.linkRecords (j : String) : now.linkRecords j = g.linkRecords j :=
  linkRecords_congr h.classIds (linksOf_congr h.links j)

theorem Answered.sharedTexts (hshared : ∀ j, Method.SharedTexts (g.methodsOf j)) (j : String) :
    Method.SharedTexts (now.methodsOf j) := by
  rw [h.methods]
  split
  · exact sharedTexts_enrichMethods (hshared _) _
  · exact hshared j

/-- The node that has got the answer is stored with it. -/
theorem Answered.nodeStored (hs : s.Consistent) (hnode : g.contains r.identifier = true)
    (hstored : g.NodeStored s r) (hshared : Method.SharedTexts (now.methodsOf r.identifier)) :
    now.NodeStored (now.storeThrough r.identifier r s) (now.updatedClass r.identifier r) where
  tied := (classId?_congr h.classIds _).trans hstored.tied
  kind := rfl
  description := rfl
  methods := by
    have hown : now.methodsOf r.identifier =
        enrichMethods (g.methodsOf r.identifier) x.methodTexts := by
      rw [h.methods, if_pos ⟨rfl, hnode⟩]
    change ((now.storeThrough r.identifier r s).methodsFor r.id).map MethodRecord.method =
      now.methodsOf r.identifier
    rw [methodsFor_storeThrough hs, List.map_map, hown, ← hstored.methods, enrichMethods_eq,
      List.map_map]
    refine List.map_congr_left fun m hm => ?_
    refine method_updatedRow hshared hown ?_
    rw [← hstored.methods]
    exact List.mem_map_of_mem hm
  links := by
    change (now.storeThrough r.identifier r s).linksFor r.id = now.linkRecords r.identifier
    rw [linksFor_storeThrough, h.linkRecords]
    exact hstored.links

/-- The other nodes are stored as they were. -/
theorem Answered.nodeStored_of_ne (hs : s.Consistent) {r' : ClassRecord}
    (hstored : g.NodeStored s r') (hid : r'.id ≠ r.id)
    (hidentifier : r'.identifier ≠ r.identifier) :
    now.NodeStored (now.storeThrough r.identifier r s) r' where
  tied := (classId?_congr h.classIds _).trans hstored.tied
  kind := by
    rw [kind_congr (h.info _ hidentifier)]
    exact hstored.kind
  description := by
    rw [description?_congr (h.info _ hidentifier)]
    exact hstored.description
  methods := by
    rw [methodsFor_storeThrough_of_ne hs hid, h.methods, if_neg fun hj => hidentifier hj.1]
    exact hstored.methods
  links := by
    rw [linksFor_storeThrough, h.linkRecords]
    exact hstored.links

end Answered

/-- What the store has after an answer was written through agrees with the graph that has it. -/
theorem Agrees.withAnswer (h : g.Agrees s p) (hs : s.Consistent) (x : Answer)
    {r : ClassRecord} (hr : r ∈ s.findByProject p)
    (ht : ((g.withAnswer r.identifier x).1.storeThrough r.identifier r s).Consistent) :
    (g.withAnswer r.identifier x).1.Agrees
      ((g.withAnswer r.identifier x).1.storeThrough r.identifier r s) p := by
  have hnode := (h.covered r hr).1
  have hstored := h.nodeStored hs hr
  have hwf : (g.withAnswer r.identifier x).1.WellFormed := h.wellFormed.applyEnrichment ..
  have hnow := g.answered_withAnswer r.identifier x
  generalize (g.withAnswer r.identifier x).1 = now at *
  have hshared := hnow.sharedTexts h.shared
  have hnodes := contains_congr hnow.nodes
  have hget (c : String) := now.getClass?_storeThrough r.identifier r s c
  refine ⟨hwf, hshared, fun j hj => ?_, fun r' hr' => ?_⟩
  · by_cases hji : j = r.identifier
    · subst hji
      refine ⟨now.updatedClass r.identifier r, (mem_findByProject ht).2 ⟨?_, ?_⟩, rfl,
        hnow.nodeStored hs hnode hstored (hshared _)⟩
      · rw [hget]
        exact if_pos rfl
      · exact ((mem_findByProject hs).1 hr).2
    · obtain ⟨r', hr', rfl, hstored'⟩ := h.stored j ((hnodes j).symm.trans hj)
      have hne : r'.id ≠ r.id := fun heq =>
        hji (congrArg (·.identifier) (eq_of_mem_findByProject hs hr' hr heq))
      refine ⟨r', (mem_findByProject ht).2 ⟨?_, ((mem_findByProject hs).1 hr').2⟩, rfl,
        hnow.nodeStored_of_ne hs hstored' hne hji⟩
      rw [hget, if_neg hne]
      exact ((mem_findByProject hs).1 hr').1
  · obtain ⟨hclass, hproject⟩ := (mem_findByProject ht).1 hr'
    have htied := classId?_congr hnow.classIds
    rw [hget] at hclass
    split at hclass
    · cases hclass
      exact ⟨(hnodes _).trans hnode, (htied _).trans hstored.tied⟩
    · obtain ⟨hnode', htied'⟩ := h.covered r' ((mem_findByProject hs).2 ⟨hclass, hproject⟩)
      exact ⟨(hnodes _).trans hnode', (htied _).trans htied'⟩

/-- The ties of a graph that agrees with the store are to nobody else's records. -/
theorem Agrees.bound (h : g.Agrees s p) (hs : s.Consistent) :
    g.BoundTo fun c => ¬s.Foreign p c := by
  intro id c hc
  obtain ⟨r, hr, -, rfl⟩ := h.exists_record hc
  exact (Cleared.owns_of_mem hs hr).not_foreign

/-- Writing an answer back keeps graph and store in agreement. -/
theorem Agrees.writeBackOne (h : g.Agrees a.store p) (ha : a.Sound) (hfree : a.Unrefused)
    (id : String) (x : Answer) :
    (g.writeBackOne id x a).1.1.Agrees (g.writeBackOne id x a).2.store p := by
  have hsound := (writeBackOne_advances ha (h.bound ha.consistent) id x).1.sound
  rw [writeBackOne_eq, applyAnswer_eq, withAnswer_known] at hsound ⊢
  by_cases hid : g.contains id = true
  · rw [if_pos hid] at hsound ⊢
    obtain ⟨r, hr, rfl, hstored⟩ := h.stored id hid
    obtain ⟨b, hb, hstore, -⟩ := writeThrough_of_unrefused (g := (g.withAnswer r.identifier x).1)
      ha.consistent hfree ((classId?_congr (classIds_withAnswer ..) _).trans hstored.tied)
      ((mem_findByProject ha.consistent).1 hr).1
    rw [hb] at hsound ⊢
    change b.Sound at hsound
    change (g.withAnswer r.identifier x).1.Agrees b.store p
    have hconsistent := hsound.consistent
    rw [hstore] at hconsistent ⊢
    exact h.withAnswer ha.consistent x hr hconsistent
  · rw [if_neg hid]
    change (g.withAnswer id x).1.Agrees a.store p
    rwa [withAnswer_of_unknown hid]

/-- So does writing back any number of answers. -/
theorem Agrees.writeBack (h : g.Agrees a.store p) (ha : a.Sound) (hfree : a.Unrefused)
    (answers : List (String × Answer)) :
    (g.writeBack answers a).1.1.Agrees (g.writeBack answers a).2.store p := by
  induction answers generalizing g a with
  | nil => exact h
  | cons first rest ih =>
    obtain ⟨id, x⟩ := first
    have hone := (writeBackOne_advances ha (h.bound ha.consistent) id x).1
    exact ih (h.writeBackOne ha hfree id x) hone.sound (hone.refusal.trans hfree)

/-- However an enricher answers, and whichever of its batches fail, enriching nodes keeps graph
and store in agreement. -/
theorem Agrees.enrich {σ : Type} {w w' : Workspace σ} (h : g.Agrees w.records.store p)
    (hw : w.records.Sound) (hfree : w.records.Unrefused) {enricher : Enricher σ}
    (henricher : ∀ batch, Run.Discreet (enricher batch)) {repository : Path} {language : String}
    {ids : List String} {r : Graph × EnrichmentCounts}
    (hrun : (g.enrich enricher repository language ids).run w = (.ok r, w')) :
    r.1.Agrees w'.records.store p := by
  obtain ⟨_, _, outcome, _, -, hgraph, hrecords⟩ := enrich_discreet_eq_ok henricher hrun
  rw [hgraph, hrecords]
  exact h.writeBack hw hfree _

end CodeAtlas.Graph
