import CodeAtlas.Proofs.Record.Reworded
import CodeAtlas.Proofs.Run.Asked
import CodeAtlas.Proofs.Run.Batches

/-!
# Enrichment in any order

Batches may finish in any order, and their answers are written back one unit at a time. An answer
shows in its own node and its own records only, and what it makes of them does not depend on the
others. So the graph that is written, the records and the counts are the same for every order.
-/

namespace CodeAtlas

open RecordStore StoreAccess

namespace Graph

/-! ## Graphs with answers -/

section Answers

variable {g h : Graph} {id : String}

/-- The graph with answers, one after the other. -/
def withAnswers (g : Graph) (answers : List (String × Answer)) : Graph :=
  answers.foldl (fun g e => (g.withAnswer e.1 e.2).1) g

/-- An answer changes what is said about kinds, descriptions and methods, and nothing else. -/
theorem withAnswer_eq (g : Graph) (id : String) (x : Answer) :
    ∃ info methods, (g.withAnswer id x).1 = { g with info := info, methods := methods } ∧
      methods.keys = g.methods.keys := by
  unfold withAnswer applyEnrichment
  split
  · dsimp only
    split
    · next ms hms =>
      rw [if_pos (by simp)]
      refine ⟨_, _, rfl, ?_⟩
      have hkey := (Dict.contains_iff_mem_keys _ id).1 (Dict.contains_of_get?_eq_some hms)
      rw [Dict.keys_insert, if_pos hkey]
    · exact ⟨_, _, rfl, rfl⟩
  · exact ⟨g.info, g.methods, rfl, rfl⟩

theorem withAnswers_eq (g : Graph) (answers : List (String × Answer)) :
    ∃ info methods, g.withAnswers answers = { g with info := info, methods := methods } ∧
      methods.keys = g.methods.keys := by
  induction answers generalizing g with
  | nil => exact ⟨g.info, g.methods, rfl, rfl⟩
  | cons e rest ih =>
    obtain ⟨info, methods, hone, hkeys⟩ := g.withAnswer_eq e.1 e.2
    obtain ⟨info', methods', hrest, hkeys'⟩ := ih (g.withAnswer e.1 e.2).1
    refine ⟨info', methods', hrest.trans ?_, hkeys'.trans ?_⟩
    · rw [hone]
    · rw [hone]
      exact hkeys

/-- The texts of an answer go to the methods that are listed for its node. -/
theorem get?_methods_withAnswer (g : Graph) (id : String) (x : Answer) :
    (g.withAnswer id x).1.methods.get? id =
      if g.contains id then (g.methods.get? id).map fun ms => enrichMethods ms x.methodTexts
      else g.methods.get? id := by
  unfold withAnswer applyEnrichment
  by_cases hid : g.contains id = true
  · rw [if_pos hid, if_pos hid]
    cases hm : g.methods.get? id with
    | none => simp [hm]
    | some ms => simp [hm, Dict.get?_insert]
  · rw [if_neg hid, if_neg hid]

theorem SameAt.symm (hs : SameAt id g h) : SameAt id h g :=
  ⟨hs.nodes.symm, hs.classId.symm, hs.info.symm, hs.methods.symm, hs.links.symm⟩

/-- What an answer makes of its node is a matter of this node. -/
theorem SameAt.withAnswer (hs : SameAt id g h) (x : Answer) :
    SameAt id (g.withAnswer id x).1 (h.withAnswer id x).1 where
  nodes := by simp [hs.nodes]
  classId := by
    rw [classId?_congr (classIds_withAnswer h id x), classId?_congr (classIds_withAnswer g id x),
      hs.classId]
  links := by
    rw [linksOf_congr (links_withAnswer h id x), linksOf_congr (links_withAnswer g id x), hs.links]
  info := by
    have hkind := kind_congr hs.info
    unfold Graph.withAnswer
    rw [applyEnrichment_eq, applyEnrichment_eq, hs.methods]
    split
    · rw [nodeInfo?_congr (info_setMethods ..), nodeInfo?_congr (info_setMethods ..),
        nodeInfo?_setNodeInfo, nodeInfo?_setNodeInfo, hkind, hs.contains, hs.info]
    · rw [nodeInfo?_setNodeInfo, nodeInfo?_setNodeInfo, hkind, hs.contains, hs.info]
  methods := by
    rw [get?_methods_withAnswer, get?_methods_withAnswer, hs.contains, hs.methods]

/-- Graphs that were made by the same answers in any order look the same at every node. -/
theorem sameAt_withAnswers_perm (g : Graph) {xs ys : List (String × Answer)} (hperm : xs.Perm ys)
    (hnodup : (xs.map (·.1)).Nodup) (j : String) :
    SameAt j (g.withAnswers xs) (g.withAnswers ys) := by
  have hother (g : Graph) (e : String × Answer) (j : String) (hj : j ≠ e.1) :
      SameAt j g (g.withAnswer e.1 e.2).1 := sameAt_withAnswer e.2 hj
  have hxs := foldl_at Prod.fst hother hnodup g
  have hys := foldl_at Prod.fst hother ((hperm.map _).nodup_iff.1 hnodup) g
  by_cases hj : j ∈ xs.map (·.1)
  · obtain ⟨e, he, rfl⟩ := List.mem_map.1 hj
    obtain ⟨h, hbefore, hafter⟩ := hxs.1 e he
    obtain ⟨h', hbefore', hafter'⟩ := hys.1 e (hperm.subset he)
    -- both orders give the answer to a node that still looks as at the beginning
    have hstep : SameAt e.1 (h.withAnswer e.1 e.2).1 (h'.withAnswer e.1 e.2).1 :=
      (hbefore.symm.trans hbefore').withAnswer e.2
    exact (hafter.symm.trans hstep).trans hafter'
  · have hj' : j ∉ ys.map (·.1) := fun hmem => hj ((hperm.map _).symm.subset hmem)
    exact (hxs.2 j hj).symm.trans (hys.2 j hj')

/-- The order of the information about nodes is not written. -/
theorem toText_withInfo (g : Graph) {info : Dict String NodeInfo}
    (hinfo : ∀ id, info.get? id = g.nodeInfo? id) : { g with info := info }.toText = g.toText := by
  have hnode (id file : String) :
      SpelledGraph.nodeJson ⟨{ g with info := info }, []⟩ id file =
        SpelledGraph.nodeJson ⟨g, []⟩ id file := by
    unfold SpelledGraph.nodeJson
    have hsame : { g with info := info }.nodeInfo? id = g.nodeInfo? id := hinfo id
    rw [hsame]
    rfl
  unfold toText toJson SpelledGraph.toJson
  simp only [hnode]
  rfl

/-- Answers in any order make graphs of which the same is written. -/
theorem WellFormed.toText_withAnswers_perm (hg : g.WellFormed) {xs ys : List (String × Answer)}
    (hperm : xs.Perm ys) (hnodup : (xs.map (·.1)).Nodup) :
    (g.withAnswers ys).toText = (g.withAnswers xs).toText := by
  have hsame := g.sameAt_withAnswers_perm hperm hnodup
  obtain ⟨info, methods, hxs, hkeys⟩ := g.withAnswers_eq xs
  obtain ⟨info', methods', hys, hkeys'⟩ := g.withAnswers_eq ys
  rw [hxs, hys] at hsame ⊢
  obtain rfl : methods' = methods := by
    refine Dict.ext_of_keys ?_ (hkeys'.trans hkeys.symm) fun id => (hsame id).methods
    rw [hkeys']
    exact hg.labels.methods.nodup
  exact toText_withInfo { g with info := info, methods := methods' } fun id => (hsame id).info

end Answers

/-! ## Records with answers -/

section Records

variable {g h : Graph} {s : RecordStore} {id : String}

/-- The rows of a class with the texts that a node's methods of their names have. -/
def updatedRows (g : Graph) (id : String) (rows : Dict String MethodRecord) :
    Dict String MethodRecord :=
  (g.updatedMethods id rows.values).foldl (fun d m => d.insert m.id m) rows

/-- Writing through rewords the class to which the node is tied. -/
theorem storeThrough_eq {s : RecordStore} (hs : s.Consistent) (g : Graph) (id : String)
    {r : ClassRecord} (hget : s.getClass? r.id = some r) :
    g.storeThrough id r s = s.reword r.id (g.updatedClass id) (g.updatedRows id) := by
  have hclasses : (g.storeThrough id r s).classes = s.classes.modify r.id (g.updatedClass id) := by
    have hfound : s.classes.get? r.id = some r := hget
    rw [storeThrough, classes_putMethods, Dict.modify, hfound]
    rfl
  have hlinks : (g.storeThrough id r s).links = s.links := by
    rw [storeThrough, links_putMethods]
    rfl
  have hclass : ∀ m ∈ g.updatedMethods id (s.methodsFor r.id), m.classId = r.id := by
    intro m hm
    obtain ⟨old, hold, -, hsame⟩ := mem_updatedMethods hm
    rw [hsame, classId_of_mem_methodsFor hs hold]
  have hmethods : (g.storeThrough id r s).methods = s.methods.modify r.id (g.updatedRows id) := by
    rw [storeThrough, Dict.modify]
    cases hrows : s.methods.get? r.id with
    | none =>
      have hnone : s.methodsFor r.id = [] := by
        rw [methodsFor, Dict.getD_of_get?_eq_none _ hrows]
        rfl
      rw [hnone]
      rfl
    | some rows =>
      have hfound : s.methodsFor r.id = rows.values := by
        rw [methodsFor, Dict.getD_of_get?_eq_some _ hrows]
      rw [hfound] at hclass ⊢
      exact methods_putMethods_of_class hclass hrows
  unfold reword
  rw [← hclasses, ← hmethods, ← hlinks]

/-- The store with an answer, as it is written through for a node. -/
def recorded (g : Graph) (s : RecordStore) (e : String × Answer) : RecordStore :=
  match g.classId? e.1 with
  | some c =>
    s.reword c ((g.withAnswer e.1 e.2).1.updatedClass e.1)
      ((g.withAnswer e.1 e.2).1.updatedRows e.1)
  | none => s

theorem recorded_congr {e : String × Answer} (hs : SameAt e.1 g h) (s : RecordStore) :
    h.recorded s e = g.recorded s e := by
  have hnow := hs.withAnswer e.2
  have hclass : (h.withAnswer e.1 e.2).1.updatedClass e.1 =
      (g.withAnswer e.1 e.2).1.updatedClass e.1 := by
    funext r
    rw [updatedClass, updatedClass, kind_congr hnow.info, description?_congr hnow.info]
  have hrows : (h.withAnswer e.1 e.2).1.updatedRows e.1 =
      (g.withAnswer e.1 e.2).1.updatedRows e.1 := by
    funext rows
    rw [updatedRows, updatedRows, updatedMethods, updatedMethods, hnow.methodsOf]
  rw [recorded, recorded, hs.classId, hclass, hrows]

/-- Answers about different nodes can be recorded in either order, if different nodes are tied to
different classes. -/
theorem recorded_comm (hdistinct : ∀ i j c, g.classId? i = some c → g.classId? j = some c → i = j)
    {e e' : String × Answer} (hne : e.1 ≠ e'.1) (s : RecordStore) :
    g.recorded (g.recorded s e) e' = g.recorded (g.recorded s e') e := by
  unfold recorded
  cases hc : g.classId? e.1 with
  | none => rfl
  | some c =>
    cases hd : g.classId? e'.1 with
    | none => rfl
    | some d =>
      refine reword_comm ?_ _ _ _ _ s
      rintro rfl
      exact hne (hdistinct _ _ _ hc hd)

/-- Whether every node is tied to a stored class. -/
def Stored (g : Graph) (s : RecordStore) : Prop :=
  ∀ id, g.contains id = true → ∃ r, g.classId? id = some r.id ∧ s.getClass? r.id = some r

theorem StoredAs.stored {p : String} (hs : g.StoredAs s p) : g.Stored s := by
  intro id hid
  have hnode : (id, g.classId? id) ∈ g.identifiers.map fun id => (id, g.classId? id) :=
    List.mem_map_of_mem ((Dict.contains_iff_mem_keys _ id).1 hid)
  obtain ⟨r, hr, heq⟩ := List.mem_map.1 (hs.records.symm.subset hnode)
  exact ⟨r, (Prod.mk.inj heq).2.symm, hs.looked r hr⟩

/-- A stored class that is written through stays stored, and so do the others. -/
theorem Stored.storeThrough (hs : g.Stored s) {now : Graph} (hnodes : now.nodes = g.nodes)
    (hids : now.classIds = g.classIds) (id : String) (r : ClassRecord) :
    now.Stored (now.storeThrough id r s) := by
  intro j hj
  rw [contains_congr hnodes] at hj
  obtain ⟨r', htied, hget⟩ := hs j hj
  rw [← classId?_congr hids] at htied
  by_cases hr : r'.id = r.id
  · refine ⟨now.updatedClass id r, ?_, ?_⟩
    · rwa [hr] at htied
    · rw [getClass?_storeThrough]
      exact if_pos rfl
  · exact ⟨r', htied, by rwa [getClass?_storeThrough, if_neg hr]⟩

/-- A store that refuses nothing records an answer, and the graph has it. -/
theorem writeBackOne_of_stored {a : StoreAccess} (hg : g.WellFormed) (hs : g.Stored a.store)
    (ha : a.store.Consistent) (hfree : a.Unrefused) (id : String) (x : Answer) :
    ∃ b, g.writeBackOne id x a = (((g.withAnswer id x).1, true), b) ∧
      b.store = g.recorded a.store (id, x) ∧ b.Unrefused ∧
        (g.withAnswer id x).1.Stored b.store := by
  have hids := classIds_withAnswer g id x
  rw [writeBackOne_eq, applyAnswer_eq, withAnswer_known]
  by_cases hid : g.contains id = true
  · obtain ⟨r, htied, hget⟩ := hs id hid
    obtain ⟨b, hb, hstore, hbfree⟩ := writeThrough_of_unrefused (g := (g.withAnswer id x).1) ha
      hfree ((classId?_congr hids id).trans htied) hget
    have hrecorded : b.store = g.recorded a.store (id, x) := by
      rw [hstore, storeThrough_eq ha _ _ hget, recorded, htied]
    refine ⟨b, by rw [if_pos hid, hb]; rfl, hrecorded, hbfree, ?_⟩
    rw [hstore]
    exact hs.storeThrough (nodes_withAnswer g id x) hids id r
  · have huntied : g.classId? id = none :=
      Dict.get?_eq_none_of_not_contains fun hc => hid (hg.labels.classIds.contained id hc)
    refine ⟨a, by rw [if_neg hid], by rw [recorded, huntied], hfree, ?_⟩
    rwa [withAnswer_of_unknown hid]

/-- Answers about different nodes are written back as if each were the only one. -/
theorem writeBack_of_stored {a : StoreAccess} (hg : g.WellFormed) (hs : g.Stored a.store)
    (ha : a.store.Consistent) (hfree : a.Unrefused) {answers : List (String × Answer)}
    (hnodup : (answers.map (·.1)).Nodup) :
    ∃ b, g.writeBack answers a = ((g.withAnswers answers, []), b) ∧
      b.store = answers.foldl g.recorded a.store := by
  induction answers generalizing g a with
  | nil => exact ⟨a, rfl, rfl⟩
  | cons e rest ih =>
    obtain ⟨hfirst, hrest⟩ := List.nodup_cons.1 hnodup
    obtain ⟨b, hone, hstore, hbfree, hbs⟩ := writeBackOne_of_stored hg hs ha hfree e.1 e.2
    have hb : b.store.Consistent := by
      have hwritten := writeBackOne_writtenBack (g := g) ha e.1 e.2
      rw [hone] at hwritten
      exact hwritten.patched.consistent
    obtain ⟨c, hlater, hcstore⟩ :=
      ih (g := (g.withAnswer e.1 e.2).1) (hg.applyEnrichment ..) hbs hb hbfree hrest
    refine ⟨c, ?_, ?_⟩
    · simp only [writeBack, bind, StateT.bind, hone, hlater]
      rfl
    · rw [hcstore, hstore, List.foldl_cons]
      refine List.foldl_ext _ _ _ fun s e' he' => recorded_congr ?_ s
      exact sameAt_withAnswer e.2 fun heq => hfirst (List.mem_map.2 ⟨e', he', heq⟩)

/-- Answers that are written back in another order make the same text and the same records. -/
theorem writeBack_perm {a : StoreAccess} {p : String} (hg : g.WellFormed)
    (hs : g.StoredAs a.store p) (ha : a.store.Consistent) (hfree : a.Unrefused)
    {xs ys : List (String × Answer)} (hperm : xs.Perm ys) (hnodup : (xs.map (·.1)).Nodup) :
    ∃ now now' b b', g.writeBack xs a = ((now, []), b) ∧ g.writeBack ys a = ((now', []), b') ∧
      now'.toText = now.toText ∧ b'.store = b.store := by
  have hnodup' : (ys.map (·.1)).Nodup := (hperm.map _).nodup_iff.1 hnodup
  obtain ⟨b, hxs, hb⟩ := writeBack_of_stored hg hs.stored ha hfree hnodup
  obtain ⟨b', hys, hb'⟩ := writeBack_of_stored hg hs.stored ha hfree hnodup'
  refine ⟨_, _, b, b', hxs, hys, hg.toText_withAnswers_perm hperm hnodup, ?_⟩
  rw [hb, hb']
  refine (hperm.foldl_eq' (fun e he e' he' s => ?_) a.store).symm
  by_cases heq : e = e'
  · rw [heq]
  · refine recorded_comm hs.distinct (fun hsame => heq ?_) s
    exact List.inj_on_of_nodup_map hnodup he he' hsame

end Records

/-! ## Outcomes -/

/-- Takes an outcome: writes its answers back and counts the units that were enriched and those
that were not. -/
def takeOutcome (g : Graph) (o : EnrichmentOutcome) : StoreM (Graph × EnrichmentCounts) := do
  let (g, refused) ← g.writeBack o.succeeded.toList
  return (g, ⟨o.succeeded.size - refused.length, o.failed.length + refused.length⟩)

/-- Enriching nodes is asking for their units and taking what comes out. -/
theorem enrich_eq {σ : Type} (g : Graph) (enricher : Enricher σ) (repository : Path)
    (language : String) (ids : List String) :
    g.enrich enricher repository language ids = (do
      let t ← Run.files
      let o ← enricher.askAll defaultBatchSize defaultWorkers
        (ids.filterMap (UnitRequest.ofNode? g t repository language))
      Run.onStore (g.takeOutcome o)) := rfl

/-- Where the store takes every answer, what was asked for has been enriched or has failed. -/
theorem takeOutcome_eq {g now : Graph} {a b : StoreAccess} {o : EnrichmentOutcome}
    (h : g.writeBack o.succeeded.entries a = ((now, []), b)) :
    g.takeOutcome o a = ((now, ⟨o.succeeded.size, o.failed.length⟩), b) := by
  have htaken : g.takeOutcome o a =
      ((now, ⟨o.succeeded.size - (0 : Nat), o.failed.length + (0 : Nat)⟩), b) := by
    simp only [takeOutcome, Dict.toList, bind, StateT.bind, h]
    rfl
  simpa using htaken

/-- Outcomes that differ in their order only are taken alike. -/
theorem takeOutcome_perm {g : Graph} {a : StoreAccess} {p : String} (hg : g.WellFormed)
    (hs : g.StoredAs a.store p) (ha : a.store.Consistent) (hfree : a.Unrefused)
    {o o' : EnrichmentOutcome} (hsucceeded : o.succeeded.entries.Perm o'.succeeded.entries)
    (hfailed : o.failed.Perm o'.failed) (hnodup : o.succeeded.keys.Nodup) :
    ∃ now now' b b', g.takeOutcome o a = ((now, ⟨o.succeeded.size, o.failed.length⟩), b) ∧
      g.takeOutcome o' a = ((now', ⟨o.succeeded.size, o.failed.length⟩), b') ∧
      now'.toText = now.toText ∧ b'.store = b.store := by
  obtain ⟨now, now', b, b', hback, hback', htext, hstore⟩ :=
    writeBack_perm hg hs ha hfree hsucceeded hnodup
  have hsize : o'.succeeded.size = o.succeeded.size := hsucceeded.symm.length_eq
  refine ⟨now, now', b, b', takeOutcome_eq hback, ?_, htext, hstore⟩
  rw [takeOutcome_eq hback', hsize, hfailed.symm.length_eq]

end Graph

/-! ## Completion in any order -/

namespace Enricher

/-- An enricher that has an answer or a failure for every batch, and keeps the batches about which
it was asked. -/
def recording (respond : List UnitRequest → Outcome BatchAnswers) :
    Enricher (List (List UnitRequest)) :=
  fun batch => ExceptT.mk fun w =>
    (respond batch, { w with collaborators := w.collaborators ++ [batch] })

/-- Asking about one batch keeps the batch and what it was answered. -/
def recordOne (respond : List UnitRequest → Outcome BatchAnswers) (b : List UnitRequest) :
    Run (List (List UnitRequest)) (List String × Outcome BatchAnswers) := do
  return (b.map (·.identifier), ← Run.attempt (recording respond b))

theorem run_mapM_recordOne (respond : List UnitRequest → Outcome BatchAnswers)
    (batches : List (List UnitRequest)) (w : Workspace (List (List UnitRequest))) :
    (batches.mapM (recordOne respond)).run w =
      (.ok (batches.map fun b => (b.map (·.identifier), respond b)),
        { w with collaborators := w.collaborators ++ batches }) := by
  induction batches generalizing w with
  | nil =>
    simp
    rfl
  | cons b rest ih =>
    have hone : (recordOne respond b).run w = (.ok (b.map (·.identifier), respond b),
        { w with collaborators := w.collaborators ++ [b] }) := rfl
    rw [List.mapM_cons, Fallible.run_bind_of_ok hone, Fallible.run_bind_of_ok (ih _)]
    simp
    rfl

/-- An enricher is asked about the planned batches in their order, and about nothing else. -/
theorem askAll_recording (respond : List UnitRequest → Outcome BatchAnswers) {size workers : Int}
    {units : List UnitRequest} {batches : List (List UnitRequest)}
    (hplan : planBatches size workers units = .ok batches)
    (w : Workspace (List (List UnitRequest))) :
    ((recording respond).askAll size workers units).run w =
      (.ok (.inOrder respond batches), { w with collaborators := w.collaborators ++ batches }) := by
  have hplanned : (Run.ofOutcome (planBatches size workers units) :
      Run (List (List UnitRequest)) _).run w = (.ok batches, w) := by
    rw [hplan]
    rfl
  unfold askAll
  rw [Fallible.run_bind_of_ok hplanned]
  exact Fallible.run_bind_of_ok (run_mapM_recordOne respond batches w)

end Enricher

/-- Units are each sent in one batch and either succeed or fail. When the outcome is written back to
a graph and a store that agree, on a store that refuses nothing, the text of the graph, the records
and the counts do not depend on the order in which the batches finish. -/
theorem enrichment_confluent {size workers : Int} (hsize : 1 ≤ size) (hworkers : 1 ≤ workers)
    {units : List UnitRequest} (hunits : (units.map (·.identifier)).Nodup)
    (respond : List UnitRequest → Outcome BatchAnswers) {g : Graph} {a : StoreAccess} {p : String}
    (hg : g.WellFormed) (hs : g.StoredAs a.store p) (ha : a.store.Consistent)
    (hfree : a.Unrefused) :
    ∃ batches,
      (∀ w, ((Enricher.recording respond).askAll size workers units).run w =
        (.ok (.inOrder respond batches),
          { w with collaborators := w.collaborators ++ batches })) ∧
      batches.flatten = units ∧ (∀ u ∈ units, ∃! b, b ∈ batches ∧ u ∈ b) ∧
      (∀ b ∈ batches, (b.length : Int) ≤ size) ∧
      ∃ text records counts, counts.enriched + counts.failed = (units.length : Int) ∧
        ∀ order, order.Perm batches →
          let o := EnrichmentOutcome.inOrder respond order
          o.succeeded.keys.Disjoint o.failed ∧
          (o.succeeded.keys ++ o.failed).Perm (units.map (·.identifier)) ∧
          ∃ now b, g.takeOutcome o a = ((now, counts), b) ∧ now.toText = text ∧
            b.store = records := by
  obtain ⟨batches, hplan, hflatten, hlengths⟩ := exists_planBatches hsize hworkers units
  have hnodup : (batches.flatten.map (·.identifier)).Nodup := by rwa [hflatten]
  have hunique : ∀ u ∈ units, ∃! b, b ∈ batches ∧ u ∈ b := by
    intro u hu
    rw [← hflatten] at hu
    exact existsUnique_mem_of_flatten (List.Nodup.of_map _ hnodup) hu
  have hsettled (order : List (List UnitRequest)) (horder : order.Perm batches) :
      ((EnrichmentOutcome.inOrder respond order).succeeded.keys ++
        (EnrichmentOutcome.inOrder respond order).failed).Perm (units.map (·.identifier)) := by
    have hperm := horder.flatten.map (·.identifier)
    rw [hflatten] at hperm
    exact (EnrichmentOutcome.keys_inOrder_perm respond (hperm.nodup_iff.2 hunits)).trans hperm
  have hplanned := hsettled batches (.refl _)
  have hkeys := (List.nodup_append.1 (hplanned.nodup_iff.2 hunits)).1
  refine ⟨batches, Enricher.askAll_recording respond hplan, hflatten, hunique, hlengths,
    (g.takeOutcome (.inOrder respond batches) a).1.1.toText,
    (g.takeOutcome (.inOrder respond batches) a).2.store,
    ⟨(EnrichmentOutcome.inOrder respond batches).succeeded.size,
      (EnrichmentOutcome.inOrder respond batches).failed.length⟩, ?_, ?_⟩
  · have hlength := hplanned.length_eq
    simp only [List.length_append, Dict.keys, List.length_map] at hlength
    rw [← hlength]
    rfl
  · intro order horder
    obtain ⟨hsucceeded, hfailed⟩ := EnrichmentOutcome.inOrder_perm respond horder hnodup
    obtain ⟨now, now', b, b', hplannedTaken, htaken, htext, hstore⟩ :=
      Graph.takeOutcome_perm hg hs ha hfree hsucceeded.symm hfailed.symm hkeys
    have hapart := (List.nodup_append.1 ((hsettled order horder).nodup_iff.2 hunits)).2.2
    refine ⟨fun id hid hid' => hapart id hid id hid' rfl, hsettled order horder, now', b', htaken,
      ?_, ?_⟩
    · rw [htext, hplannedTaken]
    · rw [hstore, hplannedTaken]

namespace Pair

/-- Two nodes, each tied to a class; the first one has a method. -/
def graph : Graph :=
  ((((Graph.empty.addNode "A" "A.java").addNode "B" "B.java").bindClassId "A" "1").bindClassId
    "B" "2").setMethods "A" [.extracted "run" [] none none none]

/-- Their classes. -/
def classes : List ClassRecord :=
  [⟨"1", "p", "A", "A.java", .other, none, none⟩, ⟨"2", "p", "B", "B.java", .other, none, none⟩]

/-- The classes and the row of the method. -/
def access : StoreAccess :=
  .ofStore ((RecordStore.empty.saveClasses classes).putMethod
    (.ofMethod "3" "1" (.extracted "run" [] none none none)))

/-- The request about a node. -/
def request (id : String) : UnitRequest := ⟨id, "", "java", .other, []⟩

/-- The answers to a batch: a text for the method of the one node, a kind for the other. A batch
with another unit fails. -/
def respond (batch : List UnitRequest) : Outcome BatchAnswers :=
  if batch = [request "A"] then .ok ⟨[("A", ⟨some "Runs.", none, [⟨"run()", some "Starts.", []⟩]⟩)]⟩
  else if batch = [request "B"] then .ok ⟨[("B", ⟨none, some "service", []⟩)]⟩
  else .error .timedOut

theorem wellFormed : graph.WellFormed :=
  (((Graph.WellFormed.of_empty.addNode ..).addNode ..).bindClassId ..).bindClassId ..
    |>.setMethods ..

theorem consistent : access.store.Consistent := by
  refine (RecordStore.Consistent.of_empty.saveClasses classes).putMethod ?_
  decide

theorem storedAs : graph.StoredAs access.store "p" where
  bound := by
    have htied : ∀ id ∈ graph.identifiers, (graph.classId? id).isSome = true := by decide
    exact fun id hid => Option.isSome_iff_exists.1 (htied id hid)
  distinct i j c hi hj := by
    have hties : graph.classIds = ⟨[("A", "1"), ("B", "2")]⟩ := by decide
    simp only [Graph.classId?, hties, Dict.get?, Dict.lookup] at hi hj
    grind
  records := by decide
  looked := by decide
  kinds := by decide
  descriptions := by decide
  methods := by decide
  links := by decide
  owners := by decide

end Pair

open Pair in
/-- Of three batches two are answered and one fails. -/
theorem enrichment_confluent_of_pair :
    let batches := [[request "A"], [request "B"], [request "C"]]
    ∃ now now' b b' counts, counts.enriched + counts.failed = 3 ∧
      graph.takeOutcome (.inOrder respond batches) access = ((now, counts), b) ∧
      graph.takeOutcome (.inOrder respond batches.reverse) access = ((now', counts), b') ∧
      now'.toText = now.toText ∧ b'.store = b.store := by
  intro batches
  obtain ⟨found, hsent, -, -, -, text, records, counts, hcounts, horder⟩ :=
    enrichment_confluent (show (1 : Int) ≤ 1 by decide) (show (1 : Int) ≤ 5 by decide)
      (show (batches.flatten.map (·.identifier)).Nodup by decide) respond wellFormed storedAs
      consistent rfl
  have hfound : batches = found := congrArg (fun r => r.2.collaborators) (hsent default)
  subst hfound
  obtain ⟨-, -, now, b, htaken, htext, hstore⟩ := horder batches (.refl _)
  obtain ⟨-, -, now', b', htaken', htext', hstore'⟩ := horder batches.reverse batches.reverse_perm
  exact ⟨now, now', b, b', counts, hcounts, htaken, htaken', htext'.trans htext.symm,
    hstore'.trans hstore.symm⟩

end CodeAtlas
