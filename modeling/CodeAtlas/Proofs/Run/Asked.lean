import CodeAtlas.Proofs.Agreement.Enriched
import CodeAtlas.Proofs.Graph.Relabel
import CodeAtlas.Proofs.Record.Patched

/-!
# Nodes about which an enricher is not asked

Enrichment asks about certain nodes and writes the answers to these nodes and their records.
This file proves that it leaves everything else as it was, also where writes are refused, and
that it makes no difference what the enricher would have said about other nodes.
-/

namespace CodeAtlas

open RecordStore StoreAccess

namespace Graph

variable {g : Graph} {a : StoreAccess} {id : String}

/-! ## Answers that are written back -/

theorem sameAt_withAnswer (x : Answer) {j : String} (hj : j ≠ id) :
    SameAt j g (g.withAnswer id x).1 := by
  unfold withAnswer
  rw [applyEnrichment_eq]
  split
  · exact (SameAt.setNodeInfo hj _).trans (.setMethods hj _)
  · exact .setNodeInfo hj _

theorem nodes_revertNode (g now : Graph) (id : String) :
    (g.revertNode now id).nodes = now.nodes := by
  unfold revertNode
  rw [nodes_setMethods]
  split
  · exact nodes_setNodeInfo ..
  · rfl

theorem sameAt_revertNode (now : Graph) {j : String} (hj : j ≠ id) :
    SameAt j now (g.revertNode now id) := by
  unfold revertNode
  dsimp only
  split
  · exact (SameAt.setNodeInfo hj _).trans (.setMethods hj _)
  · exact .setMethods hj _

/-- A stored class may be saved again with other texts at any later time. -/
theorem restates_saveClass (ha : a.store.Consistent) {S : String → Prop} {c : String} (hc : S c)
    {old r : ClassRecord} (hget : a.store.getClass? c = some old) (hid : r.id = old.id)
    (hproject : r.project = old.project) (hidentifier : r.identifier = old.identifier)
    {t : RecordStore} (ht : Patched S a.store t) : t.Restates S (.saveClasses [r]) := by
  intro x hx
  obtain rfl := List.mem_singleton.1 hx
  have hkey : x.id = c := hid.trans (ha.classes_keyed c old hget)
  obtain ⟨r', hr', hp, hi⟩ := exists_getClass?_of_units ht.units hget
  rw [hkey]
  exact ⟨hc, r', hr', hproject.trans hp.symm, hidentifier.trans hi.symm⟩

/-- The class to which a node is tied. -/
def TiedTo (g : Graph) (id c : String) : Prop := g.classId? id = some c

/-- Writing a node's texts through patches the class to which it is tied. -/
theorem writeThrough_patched (ha : a.store.Consistent) :
    Patched (g.TiedTo id) a.store (g.writeThrough id a).2.store := by
  refine writeThrough_induction (motive := fun b => Patched (g.TiedTo id) a.store b.store)
    (.refl ha) (fun c r hid hget => ?_) fun c b rows hid hb hrows => ?_
  · exact patched_write ha
      (restates_saveClass (r := g.updatedClass id r) ha hid hget rfl rfl rfl (.refl ha))
  · refine hb.trans (patched_write hb.consistent fun m hm => ?_)
    obtain ⟨old, hold, hclassId⟩ := hrows m hm
    rw [hclassId, classId_of_mem_methodsFor hb.consistent hold]
    exact hid

theorem applyAnswer_patched (ha : a.store.Consistent) (id : String) (x : Answer) :
    Patched (g.TiedTo id) a.store (g.applyAnswer id x a).2.store := by
  rw [applyAnswer_eq]
  split
  · refine (writeThrough_patched ha).mono fun c hc => ?_
    exact (classId?_congr (classIds_withAnswer g id x) id).symm.trans hc
  · exact .refl ha

/-- Putting a node's records back patches the class to which it is tied. -/
theorem recordsTakenBack_patched (ha : a.store.Consistent) {b : StoreAccess}
    (hab : Patched (g.TiedTo id) a.store b.store) :
    Patched (g.TiedTo id) a.store (recordsTakenBack ((g.classId? id).bind a.store.getClass?)
      (((g.classId? id).map a.store.methodsFor).getD []) b).store := by
  refine recordsTakenBack_induction (motive := fun d => Patched (g.TiedTo id) a.store d.store) hab
    (fun r hrecord => ?_) fun r d hrecord hd => ?_
  · obtain ⟨c, hc, hget⟩ := Option.bind_eq_some_iff.1 hrecord
    exact hab.trans (patched_write hab.consistent (restates_saveClass ha hc hget rfl rfl rfl hab))
  · obtain ⟨c, hc, hget⟩ := Option.bind_eq_some_iff.1 hrecord
    refine hd.trans (patched_write hd.consistent fun m hm => ?_)
    have hrows : m ∈ a.store.methodsFor c := by simpa [hc] using hm
    rw [classId_of_mem_methodsFor ha hrows]
    exact hc

/-- What becomes of a graph and a store when answers about certain nodes are written back: other
nodes are as they were, and so are the classes to which they are tied. -/
structure WrittenBack (ids : List String) (g : Graph) (s : RecordStore) (now : Graph)
    (t : RecordStore) : Prop where
  nodes : now.nodes = g.nodes
  classIds : now.classIds = g.classIds
  same : ∀ j, j ∉ ids → SameAt j g now
  patched : Patched (fun c => ∃ id ∈ ids, g.TiedTo id c) s t

theorem WrittenBack.refl (ids : List String) (g : Graph) {s : RecordStore} (hs : s.Consistent) :
    WrittenBack ids g s g s :=
  ⟨rfl, rfl, fun j _ => .refl j g, .refl hs⟩

theorem writeBackOne_writtenBack (ha : a.store.Consistent) (id : String) (x : Answer) :
    WrittenBack [id] g a.store (g.writeBackOne id x a).1.1 (g.writeBackOne id x a).2.store := by
  have hne {j : String} (hj : j ∉ [id]) : j ≠ id := fun heq => hj (by simp [heq])
  have htied {c : String} (hc : g.TiedTo id c) : ∃ i ∈ [id], g.TiedTo i c :=
    ⟨id, List.mem_singleton_self id, hc⟩
  have hanswered := applyAnswer_patched (g := g) ha id x
  have hgraph : (g.applyAnswer id x a).1.1 = (g.withAnswer id x).1 := by
    rw [applyAnswer_eq]
    split <;> rfl
  rw [writeBackOne_eq]
  cases hrun : g.applyAnswer id x a with
  | mk o b =>
    obtain ⟨now, o⟩ := o
    rw [hrun] at hanswered hgraph
    dsimp only at hgraph
    subst hgraph
    cases o with
    | ok taken =>
      exact ⟨nodes_withAnswer .., classIds_withAnswer .., fun j hj => sameAt_withAnswer x (hne hj),
        hanswered.mono fun _ => htied⟩
    | error f =>
      refine ⟨(nodes_revertNode ..).trans (nodes_withAnswer ..),
        (classIds_revertNode ..).trans (classIds_withAnswer ..), fun j hj => ?_,
        (recordsTakenBack_patched ha hanswered).mono fun _ => htied⟩
      exact (sameAt_withAnswer x (hne hj)).trans (sameAt_revertNode _ (hne hj))

/-- Writing answers back changes nothing about nodes to which none of them belongs. -/
theorem writeBack_writtenBack (ha : a.store.Consistent) (answers : List (String × Answer)) :
    WrittenBack (answers.map (·.1)) g a.store (g.writeBack answers a).1.1
      (g.writeBack answers a).2.store := by
  induction answers generalizing g a with
  | nil => exact .refl [] g ha
  | cons first rest ih =>
    obtain ⟨id, x⟩ := first
    have hone := writeBackOne_writtenBack (g := g) ha id x
    have hrest := ih (g := (g.writeBackOne id x a).1.1) hone.patched.consistent
    refine ⟨hrest.nodes.trans hone.nodes, hrest.classIds.trans hone.classIds, fun j hj => ?_, ?_⟩
    · rw [List.map_cons, List.mem_cons, not_or] at hj
      exact (hone.same j (by simpa using hj.1)).trans (hrest.same j hj.2)
    · refine (hone.patched.mono ?_).trans (hrest.patched.mono ?_)
      · rintro c ⟨i, hi, hc⟩
        exact ⟨i, List.mem_cons.2 (Or.inl (List.mem_singleton.1 hi)), hc⟩
      · rintro c ⟨i, hi, hc⟩
        exact ⟨i, List.mem_cons_of_mem _ hi, (classId?_congr hone.classIds i).symm.trans hc⟩

end Graph

/-! ## Batches -/

/-- Batches hold nothing but the units that are asked about. -/
theorem mem_of_mem_chunksWithin {α : Type} {size bound : Nat} {xs b : List α}
    (hb : b ∈ chunksWithin size bound xs) : ∀ x ∈ b, x ∈ xs := by
  induction bound generalizing xs with
  | zero => cases hb
  | succ n ih =>
    cases xs with
    | nil => cases hb
    | cons y ys =>
      rcases List.mem_cons.1 hb with rfl | hb
      · exact fun x hx => List.mem_of_mem_take hx
      · exact fun x hx => List.mem_of_mem_drop (ih hb x hx)

theorem mem_of_planBatches {size workers : Int} {units : List UnitRequest}
    {batches : List (List UnitRequest)} (h : planBatches size workers units = .ok batches) :
    ∀ b ∈ batches, ∀ u ∈ b, u ∈ units := by
  have hunit {found : List (List UnitRequest)} (hfound : unitBatches size units = .ok found) :
      ∀ b ∈ found, ∀ u ∈ b, u ∈ units := by
    unfold unitBatches at hfound
    split at hfound
    · cases hfound
    · split at hfound
      · cases hfound
        exact fun b hb => by cases hb
      · cases hfound
        exact fun b hb => mem_of_mem_chunksWithin hb
  unfold planBatches at h
  split at h
  · cases h
    exact fun b hb => by cases hb
  · obtain ⟨found, hfound, h⟩ := Outcome.bind_eq_ok.1 h
    split at h
    · cases h
    · cases h
      exact hunit hfound

namespace EnrichmentOutcome

theorem mem_keys_addUnit {answers : BatchAnswers} {o : EnrichmentOutcome} {i id : String}
    (h : id ∈ (addUnit answers o i).succeeded.keys) : id ∈ o.succeeded.keys ∨ id = i := by
  unfold addUnit at h
  split at h
  · rw [← Dict.contains_iff_mem_keys, Dict.contains_insert, Dict.contains_iff_mem_keys] at h
    exact h.symm
  · exact Or.inl h

theorem mem_keys_addBatch {o : EnrichmentOutcome} {ids : List String}
    {result : Outcome BatchAnswers} {id : String}
    (h : id ∈ (o.addBatch ids result).succeeded.keys) : id ∈ o.succeeded.keys ∨ id ∈ ids := by
  unfold addBatch at h
  cases result with
  | error f => exact Or.inl h
  | ok answers =>
    dsimp only at h
    induction ids generalizing o with
    | nil => exact Or.inl h
    | cons i rest ih =>
      rcases ih h with hstep | hrest
      · rcases mem_keys_addUnit hstep with hold | rfl
        · exact Or.inl hold
        · exact Or.inr (List.mem_cons_self ..)
      · exact Or.inr (List.mem_cons_of_mem _ hrest)

/-- Answers come from batches. -/
theorem mem_keys_ofBatches {finished : List (List String × Outcome BatchAnswers)} {id : String}
    (h : id ∈ (ofBatches finished).succeeded.keys) : ∃ b ∈ finished, id ∈ b.1 := by
  have hmain (o : EnrichmentOutcome)
      (hid : id ∈ (finished.foldl (fun o b => o.addBatch b.1 b.2) o).succeeded.keys) :
      id ∈ o.succeeded.keys ∨ ∃ b ∈ finished, id ∈ b.1 := by
    clear h
    induction finished generalizing o with
    | nil => exact Or.inl hid
    | cons b rest ih =>
      rcases ih _ hid with hstep | ⟨c, hc, hin⟩
      · rcases mem_keys_addBatch hstep with hold | hnew
        · exact Or.inl hold
        · exact Or.inr ⟨b, List.mem_cons_self .., hnew⟩
      · exact Or.inr ⟨c, List.mem_cons_of_mem _ hc, hin⟩
  rcases hmain _ h with hnone | hsome
  · cases hnone
  · exact hsome

end EnrichmentOutcome

/-! ## Asking -/

namespace Fallible

variable {ε S α β : Type} {f : α → ExceptT ε (StateM S) β}

/-- What all steps of a loop ensure, all results of the loop have. -/
theorem Ensures.mapM {P : β → Prop} {xs : List α} (hf : ∀ a ∈ xs, Ensures P (f a)) :
    Ensures (fun bs => ∀ b ∈ bs, P b) (xs.mapM f) := by
  induction xs with
  | nil => exact .pure fun b hb => by cases hb
  | cons a rest ih =>
    rw [List.mapM_cons]
    refine (hf a (List.mem_cons_self ..)).bind fun b hb => ?_
    refine (ih fun x hx => hf x (List.mem_cons_of_mem _ hx)).bind fun bs hbs => .pure ?_
    intro x hx
    rcases List.mem_cons.1 hx with rfl | hx
    · exact hb
    · exact hbs x hx

end Fallible

open Fallible

namespace Enricher

variable {σ : Type} (enricher : Enricher σ)

/-- An enricher that does something else whenever it is asked about a certain unit. -/
def trapped (id : String) (trap : Enricher σ) : Enricher σ := fun batch =>
  if id ∈ batch.map (·.identifier) then trap batch else enricher batch

/-- Answers are about units that were asked about. -/
theorem ensures_askAll (size workers : Int) (units : List UnitRequest) :
    Ensures (fun o => ∀ id ∈ o.succeeded.keys, id ∈ units.map (·.identifier))
      (enricher.askAll size workers units) := by
  unfold askAll
  refine (Run.ensures_ofOutcome fun batches hplan => mem_of_planBatches hplan).bind
    fun batches hbatches => ?_
  refine (Ensures.mapM (P := fun b : List String × Outcome BatchAnswers =>
    ∀ id ∈ b.1, id ∈ units.map (·.identifier)) fun b hb => ?_).bind fun finished hfinished => ?_
  · refine (Ensures.trivial _).bind fun o _ => .pure fun id hid => ?_
    obtain ⟨u, hu, rfl⟩ := List.mem_map.1 hid
    exact List.mem_map_of_mem (hbatches b hb u hu)
  · refine .pure fun id hid => ?_
    obtain ⟨b, hb, hin⟩ := EnrichmentOutcome.mem_keys_ofBatches hid
    exact hfinished b hb id hin

/-- What an enricher would do about a unit makes no difference if nobody asks about it. -/
theorem askAll_trapped {id : String} (trap : Enricher σ) (size workers : Int)
    {units : List UnitRequest} (h : id ∉ units.map (·.identifier)) :
    (enricher.trapped id trap).askAll size workers units = enricher.askAll size workers units := by
  unfold askAll
  cases hplan : planBatches size workers units with
  | error f => rfl
  | ok batches =>
    have hok {α : Type} (k : List (List UnitRequest) → Run σ α) :
        Run.ofOutcome (.ok batches) >>= k = k batches := rfl
    rw [hok, hok, mapM_congr fun b hb => ?_]
    have hout : id ∉ b.map (·.identifier) := fun hmem => h <| by
      obtain ⟨u, hu, rfl⟩ := List.mem_map.1 hmem
      exact List.mem_map_of_mem (mem_of_planBatches hplan b hb u hu)
    rw [show enricher.trapped id trap b = enricher b from if_neg hout]

end Enricher

/-! ## Enriching -/

theorem UnitRequest.identifier_ofNode? {g : Graph} {t : FileTree} {repository : Path}
    {language id : String} {u : UnitRequest}
    (h : UnitRequest.ofNode? g t repository language id = some u) : u.identifier = id := by
  unfold UnitRequest.ofNode? at h
  simp only [Option.bind_eq_bind, Option.bind_eq_some_iff] at h
  obtain ⟨_, -, _, -, _, -, h⟩ := h
  cases h
  rfl

/-- Requests are about nodes that are to be enriched. -/
theorem mem_of_mem_requests {g : Graph} {t : FileTree} {repository : Path} {language id : String}
    {ids : List String}
    (h : id ∈ (ids.filterMap (UnitRequest.ofNode? g t repository language)).map (·.identifier)) :
    id ∈ ids := by
  obtain ⟨u, hu, rfl⟩ := List.mem_map.1 h
  obtain ⟨i, hi, hmade⟩ := List.mem_filterMap.1 hu
  rwa [UnitRequest.identifier_ofNode? hmade]

namespace Graph

variable {σ : Type} {w w' : Workspace σ} {g : Graph}

theorem WrittenBack.mono {ids ids' : List String} {now : Graph} {s t : RecordStore}
    (h : WrittenBack ids g s now t) (hids : ∀ id ∈ ids, id ∈ ids') :
    WrittenBack ids' g s now t :=
  ⟨h.nodes, h.classIds, fun j hj => h.same j fun hin => hj (hids j hin),
    h.patched.mono fun _ ⟨id, hid, hc⟩ => ⟨id, hids id hid, hc⟩⟩

/-- Enriching nodes changes nothing but these nodes and the classes to which they are tied. -/
theorem enrich_writtenBack (hw : w.records.store.Consistent) {enricher : Enricher σ}
    (henricher : ∀ batch, Run.Discreet (enricher batch)) {repository : Path} {language : String}
    {ids : List String} {r : Graph × EnrichmentCounts}
    (hrun : (g.enrich enricher repository language ids).run w = (.ok r, w')) :
    WrittenBack ids g w.records.store r.1 w'.records.store := by
  obtain ⟨t, w₁, outcome, w₂, hasked, hgraph, hrecords⟩ := enrich_discreet_eq_ok henricher hrun
  rw [hgraph, hrecords]
  refine (writeBack_writtenBack hw outcome.succeeded.toList).mono fun id hid => ?_
  exact mem_of_mem_requests (enricher.ensures_askAll _ _ _ _ _ _ hasked id hid)

/-- What an enricher would say about a node makes no difference if the node is not to be
enriched. -/
theorem enrich_trapped (g : Graph) (enricher : Enricher σ) {id : String} (trap : Enricher σ)
    (repository : Path) (language : String) {ids : List String} (h : id ∉ ids) :
    g.enrich (enricher.trapped id trap) repository language ids =
      g.enrich enricher repository language ids := by
  unfold enrich
  refine bind_congr fun t => ?_
  dsimp only
  rw [enricher.askAll_trapped trap _ _ fun hmem => h (mem_of_mem_requests hmem)]

end Graph

end CodeAtlas
