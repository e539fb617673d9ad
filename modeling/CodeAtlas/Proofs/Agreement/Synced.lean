import CodeAtlas.Proofs.Sync.Kept
import CodeAtlas.Proofs.Sync.Outcome

/-!
# Agreement after a sync

A sync deletes the records of deleted units with all links to them, writes those of updated and
added ones, and leaves those of unchanged ones. This file proves that the graph which it
publishes agrees with the store, if the former graph did.
-/

namespace CodeAtlas

open RecordStore

namespace SyncEngine

variable {σ : Type} {w w' : Workspace σ} {p head : String} {before : Graph} {t : Staged}
  {a : StoreAccess}

/-- The links of an unchanged node lose in the store what they lose in the graph: those that
lead to deleted records are those that lead to nodes which are gone. -/
theorem Staged.Fits.linkRecords_unchanged (ht : t.Fits a p head) (h : before.Agrees a.store p)
    (hs : a.store.Consistent) {r : ClassRecord} (hr : r ∈ a.store.findByProject p)
    (hid : r.identifier ∈ t.draft.plan.unchanged) :
    t.graph.linkRecords r.identifier =
      (before.linkRecords r.identifier).filter
        fun l => !(deletedIds t.draft).contains l.targetId := by
  have hrestored := (ht.labelled h hs).unchanged _ hid
  have htied := (h.nodeStored hs hr).tied
  rw [Graph.linkRecords_of_tied (hrestored.classId.trans htied),
    Graph.linkRecords_of_tied htied, hrestored.links, Graph.flatMap_keepLinks _ _ _ (by simp),
    List.filter_flatMap]
  refine List.flatMap_congr fun e he => ?_
  rw [List.filter_filterMap, List.filterMap_filter]
  refine List.filterMap_congr fun l hl => ?_
  obtain ⟨x, hx, heq, hstored⟩ := h.stored l.target (h.wellFormed.contains_target he hl)
  rw [← heq, hstored.tied]
  rcases ht.target_cases (h.distinct hs) hs hx with ⟨hnode, hclass, hout⟩ | ⟨hnode, hgone⟩
  · rw [if_pos hnode, hclass]
    simp [Option.filter, hout]
  · rw [if_neg hnode]
    simp [Option.filter, hgone]

/-- Whether methods of one name share their texts in the staged graph. -/
theorem Staged.Fits.shared (ht : t.Fits a p head) (h : before.Agrees a.store p)
    (hs : a.store.Consistent) (id : String) : Method.SharedTexts (t.graph.methodsOf id) := by
  have hd := ht.draft
  have hlabelled := ht.labelled h hs
  by_cases hnode : t.draft.graph.contains id = true
  · by_cases hkey : id ∈ t.draft.records.keys
    · rcases (hd.plan.kept id).2 ⟨hnode, hkey⟩ with hid | hid
      · obtain ⟨rows, hrows⟩ := (hlabelled.updated id hid).methods
        rw [hrows]
        exact Graph.sharedTexts_carryTexts rows (hd.bare.texts id)
      · rw [(hlabelled.unchanged id hid).methods]
        exact h.shared id
    · rw [(hlabelled.added id ((hd.plan.added id).2 ⟨hnode, hkey⟩)).methods]
      exact Method.sharedTexts_of_plain (hd.bare.texts id)
  · have hempty : t.graph.methodsOf id = [] := by
      refine Dict.getD_of_get?_eq_none _ (Dict.get?_eq_none_of_not_contains fun hc => hnode ?_)
      rw [← Graph.contains_congr hlabelled.nodes]
      exact hlabelled.wellFormed.labels.methods.contained id hc
    rw [hempty]
    intro m hm
    cases hm

/-- A staged record says what the graph says about its node. -/
theorem Staged.Fits.staged_spec (ht : t.Fits a p head) (h : before.Agrees a.store p)
    (ha : a.Sound) {r : ClassRecord} (hr : r ∈ t.updated ++ t.added) :
    r.project = p ∧ t.graph.classId? r.identifier = some r.id ∧
      r.kind = t.graph.kind r.identifier ∧
      r.description = t.graph.description? r.identifier := by
  have hs := ha.consistent
  have hlabelled := ht.labelled h hs
  rcases List.mem_append.1 hr with hr | hr
  · obtain ⟨-, hback, -⟩ := ht.updated_restates
    obtain ⟨old, hmem, hrestates⟩ := hback r hr
    obtain ⟨hfound, hid⟩ := (mem_updatedRecords ht.draft).1 hmem
    have hold := ht.draft.mem_of_finds hfound
    have hupdated := hlabelled.updated _ hid
    have hstored := h.nodeStored hs hold
    refine ⟨(ht.updated_spec ha hr).2, ?_, ?_, ?_⟩
    · rw [hrestates.identifier, hrestates.id, hupdated.classId]
      exact hstored.tied
    · rw [hrestates.identifier, hrestates.kind, hupdated.kind]
    · rw [hrestates.identifier, hrestates.description, hupdated.description]
      exact hstored.description
  · have hid : r.identifier ∈ t.draft.plan.added := by
      rw [← ht.identifiers_added]
      exact List.mem_map_of_mem hr
    have htied := hlabelled.tied r hr
    rw [(hlabelled.added _ hid).description, ht.draft.bare.descriptions]
    refine ⟨?_, htied, ?_⟩
    · rw [ht.added] at hr
      exact (mem_stagedRecords _ _ _ hr).1
    · rw [ht.added] at hr
      obtain ⟨-, hkind, hdescription, -⟩ := mem_stagedRecords _ _ _ hr
      rw [ht.graph, Graph.kind_congr (Graph.nodeInfo?_congr (Graph.info_bindAll ..) _)]
      exact ⟨hkind, hdescription⟩

/-- What is stored about an unchanged node is what the staged graph says about it. -/
theorem Staged.Fits.nodeStored_unchanged (ht : t.Fits a p head) (h : before.Agrees a.store p)
    (ha : a.Sound) {r : ClassRecord} (hr : r ∈ a.store.findByProject p)
    (hid : r.identifier ∈ t.draft.plan.unchanged) (hout : r.id ∉ deletedIds t.draft) :
    t.graph.NodeStored (clearedStore t a.store) r := by
  have hs := ha.consistent
  have hrestored := (ht.labelled h hs).unchanged _ hid
  have hstored := h.nodeStored hs hr
  have hnotUpdated : r.id ∉ t.updated.map (·.id) := fun hmem =>
    (ht.unstaged_iff (h.distinct hs) hs ha.fresh hr hout).2 hid
      (List.map_append ▸ List.mem_append_left _ hmem)
  constructor
  · exact hrestored.classId.trans hstored.tied
  · exact hstored.kind.trans hrestored.kind.symm
  · exact hstored.description.trans hrestored.description.symm
  · unfold clearedStore
    rw [hrestored.methods, methodsFor_eq_values, rowsOf_deleteMethodsAndLinks,
      if_neg hnotUpdated, rowsOf_deleteClasses, if_neg hout]
    exact hstored.methods
  · unfold clearedStore
    rw [linksFor_deleteMethodsAndLinks, if_neg hnotUpdated, linksFor_deleteClasses,
      if_neg hout, hstored.links, ht.linkRecords_unchanged h hs hr hid]

/-- The updated and added nodes of a staged graph are staged to be written, and all other nodes
are stored. -/
theorem Staged.Fits.stagedOn (ht : t.Fits a p head) (h : before.Agrees a.store p)
    (ha : a.Sound) :
    t.graph.StagedOn (clearedStore t a.store) p (t.updated ++ t.added) where
  wellFormed := (ht.labelled h ha.consistent).wellFormed
  shared := ht.shared h ha.consistent
  ids_nodup := ht.nodup_ids ha.consistent ha.fresh
  project r hr := (ht.staged_spec h ha hr).1
  tied r hr := (ht.staged_spec h ha hr).2.1
  kind r hr := (ht.staged_spec h ha hr).2.2.1
  description r hr := (ht.staged_spec h ha hr).2.2.2
  rows_cleared r hr := (ht.cleared ha hr).1
  links_cleared r hr := (ht.cleared ha hr).2
  nodes id hid := by
    have hs := ha.consistent
    have hd := ht.draft
    have hnode : t.draft.graph.contains id = true := by
      rwa [← Graph.contains_congr (ht.labelled h hs).nodes]
    by_cases hkey : id ∈ t.draft.records.keys
    · have hkept := (hd.plan.kept id).2 ⟨hnode, hkey⟩
      rw [hd.records, mem_keys_recordsByIdentifier] at hkey
      obtain ⟨r, hr, rfl⟩ := hkey
      have hout : r.id ∉ deletedIds t.draft := by
        rcases ht.target_cases (h.distinct hs) hs hr with hstays | hgone
        · exact hstays.2.2
        · exact absurd hid hgone.1
      rcases hkept with hupdated | hunchanged
      · obtain ⟨-, -, hforth⟩ := ht.updated_restates
        obtain ⟨x, hx, hrestates⟩ := hforth r
          ((mem_updatedRecords hd).2 ⟨hd.finds (h.distinct hs) hr, hupdated⟩)
        exact Or.inl ⟨x, List.mem_append_left _ hx, hrestates.identifier⟩
      · exact Or.inr ⟨r, (mem_findByProject_clearedStore hs).2 ⟨hr, hout⟩,
          (ht.unstaged_iff (h.distinct hs) hs ha.fresh hr hout).2 hunchanged, rfl,
          ht.nodeStored_unchanged h ha hr hunchanged hout⟩
    · have hmem : id ∈ t.added.map (·.identifier) := by
        rw [ht.identifiers_added]
        exact (hd.plan.added id).2 ⟨hnode, hkey⟩
      obtain ⟨r, hr, heq⟩ := List.mem_map.1 hmem
      exact Or.inl ⟨r, List.mem_append_right _ hr, heq⟩
  others r hr _ := by
    obtain ⟨hr, hout⟩ := (mem_findByProject_clearedStore ha.consistent).1 hr
    rcases ht.target_cases (h.distinct ha.consistent) ha.consistent hr with hstays | hgone
    · exact ⟨hstays.1, hstays.2.1⟩
    · exact absurd hgone.2 hout

/-! ## Runs -/

/-- The records of a staged graph have been written in full. -/
theorem writeRecords_eq_ok {u : Unit}
    (hrun : (writeRecords t.draft t.graph t.updated t.added t.methods : Run σ Unit).run w =
      (.ok u, w')) :
    w'.records.store = (clearedStore t w.records.store).withStaged t.graph
      (t.updated ++ t.added) t.methods := by
  unfold writeRecords at hrun
  obtain ⟨_, w₁, hdeleted, hrun⟩ := Fallible.bind_eq_ok.1 hrun
  obtain ⟨_, w₂, hcleared, hrun⟩ := Fallible.bind_eq_ok.1 hrun
  rw [FreshAnalysis.writeStaged_eq_ok hrun, deleteMethodsAndLinks_eq_ok hcleared,
    FreshAnalysis.deleteClasses_eq_ok hdeleted]
  rfl

/-- The graph that a sync commits agrees with the store. -/
theorem commit_agrees {e : SyncEngine σ} (he : e.collaborators.Discreet) {state : ProjectState}
    (haw : StoreAccess.Advances p a w.records) (hfree : e.enricher = none ∨ a.Unrefused)
    (ht : t.Fits a p head) (ha : a.Sound) (h : before.Agrees a.store p)
    (hstore : w.records.store = a.store)
    (hissued : a.issued + t.draft.plan.added.length ≤ w.records.issued)
    {r : Graph × EnrichmentCounts × ProjectState}
    (hrun : (e.commit state head t).run w = (.ok r, w')) : r.1.Agrees w'.records.store p := by
  have hadv := (writeRecords_advances (σ := σ) haw ht ha hstore hissued).records
  obtain ⟨w₁, enriched, w₂, hwrite, henrich, hkept, rfl⟩ := commit_eq_ok he hrun
  rw [hwrite] at hadv
  have hwritten := writeRecords_eq_ok hwrite
  rw [hstore, ht.methods] at hwritten
  have hagrees : t.graph.Agrees w₁.records.store p := by
    have hconsistent := hadv.sound.consistent
    rw [hwritten] at hconsistent ⊢
    exact (ht.stagedOn h ha).agrees _
      ((ha.consistent.deleteClasses _).deleteMethodsAndLinks _) hconsistent
  rw [hkept]
  rcases enrichStaged_eq_ok henrich with ⟨rfl, rfl⟩ | ⟨enricher, henricher, henrich⟩
  · exact hagrees
  · rw [henricher] at hfree
    have hunrefused := hfree.resolve_left (Option.some_ne_none _)
    exact hagrees.enrich hadv.sound (hadv.refusal.trans (haw.refusal.trans hunrefused))
      (he.enricher _ henricher) henrich

/-- Whatever becomes of a sync, either it has published a graph that agrees with the store, or
the store answers everything as before, if its rollback was not refused. -/
theorem sync_agrees {e : SyncEngine σ} (he : e.collaborators.Discreet) {state : ProjectState}
    (hw : w.records.Sound) (hfree : e.enricher = none ∨ w.records.Unrefused)
    (h : before.Agrees w.records.store state.id) {r : SyncResult}
    (hrun : (e.sync state).run w = (.ok r, w'))
    (hgranted : r.status = .failed → e.RollbackGranted state (held state w)) :
    (r.status = .completed ∧
        ∃ g, w'.registry.get? state.id = some g ∧ g.Agrees w'.records.store state.id) ∨
      (r.status ≠ .completed ∧ SameAnswers w.records.store w'.records.store) := by
  by_cases hdone : r.status = .completed
  · obtain ⟨head, w₁, t, w₂, g, counts, advanced, w₃, hhead, -, hstage, hcommit, -, rfl⟩ :=
      sync_completed hrun hdone
    have hheld : w₁.records = w.records := (head_eq he hhead).1
    rw [← hheld] at hw hfree h
    obtain ⟨hfits, -, -⟩ := stage_eq_ok he hstage
    obtain ⟨hstore, hissued, haw⟩ := stage_advances he hw hstage
    have hagrees := commit_agrees he haw hfree hfits hw h hstore hissued hcommit
    exact Or.inl ⟨hdone, g, (Registry.get?_put ..).trans (if_pos rfl), hagrees⟩
  · exact Or.inr ⟨hdone, (sync_uncompleted he hw hrun hdone hgranted).1⟩

end SyncEngine

end CodeAtlas
