import CodeAtlas.Proofs.Agreement.Analyzed
import CodeAtlas.Proofs.Sync.Restored

/-!
# The nodes of a staged graph

The nodes of the graph that a sync has staged come by their labels in three ways: unchanged ones
from the former graph, updated ones from their files and in part from the former graph, added
ones from their files. This file says what labels each of them has.
-/

namespace CodeAtlas

open RecordStore

namespace Graph

/-- A node that was examined again: its kind, methods and links are new; its tie and description
are as before, and so are the texts of methods that have none of their own. -/
structure UpdatedAt (id : String) (before draft now : Graph) : Prop where
  classId : now.classId? id = before.classId? id
  kind : now.kind id = draft.kind id
  description : now.description? id = before.description? id
  methods : ∃ rows : List MethodRecord,
    now.methodsOf id = SyncEngine.carryTexts rows (draft.methodsOf id)
  links : now.linksOf id = draft.linksOf id

/-- A node that was examined again, told by what is stored about it: the record's tie and
description, and the stored texts of methods that have none of their own. -/
structure UpdatedFrom (s : RecordStore) (r : ClassRecord) (draft now : Graph) : Prop where
  classId : now.classId? r.identifier = some r.id
  info : now.nodeInfo? r.identifier = some ⟨draft.kind r.identifier, r.description⟩
  methods : now.methodsOf r.identifier =
    SyncEngine.carryTexts (s.methodsFor r.id) (draft.methodsOf r.identifier)
  links : now.linksOf r.identifier = draft.linksOf r.identifier

theorem UpdatedFrom.congr {s : RecordStore} {r : ClassRecord} {draft draft' now later : Graph}
    (h : UpdatedFrom s r draft now) (hdraft : SameAt r.identifier draft' draft)
    (hsame : SameAt r.identifier now later) : UpdatedFrom s r draft' later where
  classId := hsame.classId.trans h.classId
  info := by rw [hsame.info, h.info, kind_congr hdraft.info]
  methods := by rw [hsame.methodsOf, h.methods, hdraft.methodsOf]
  links := hsame.links.trans (h.links.trans hdraft.links)

/-- If the former graph agreed with the store, it is told by that graph as well. -/
theorem UpdatedFrom.updatedAt {s : RecordStore} {p : String} {r : ClassRecord}
    {before draft now : Graph} (hnow : UpdatedFrom s r draft now) (h : before.Agrees s p)
    (hs : s.Consistent) (hr : r ∈ s.findByProject p) :
    UpdatedAt r.identifier before draft now where
  classId := hnow.classId.trans (h.nodeStored hs hr).tied.symm
  kind := kind_of_nodeInfo? hnow.info
  description := by
    rw [← (h.nodeStored hs hr).description]
    exact description?_of_nodeInfo? hnow.info
  methods := ⟨s.methodsFor r.id, hnow.methods⟩
  links := hnow.links

/-- A node that was added: all but its tie is as in the draft. -/
structure AddedAt (id : String) (draft now : Graph) : Prop where
  kind : now.kind id = draft.kind id
  description : now.description? id = draft.description? id
  methods : now.methodsOf id = draft.methodsOf id
  links : now.linksOf id = draft.linksOf id

/-- Ties are all that an added node gets. -/
theorem SameAt.addedAt_bindAll {id : String} {draft now : Graph} (h : SameAt id draft now)
    (rs : List ClassRecord) : AddedAt id draft (now.bindAll rs) where
  kind := (kind_congr (nodeInfo?_congr (info_bindAll ..) id)).trans (kind_congr h.info)
  description := (description?_congr (nodeInfo?_congr (info_bindAll ..) id)).trans
    (description?_congr h.info)
  methods := (methodsOf_congr (methods_bindAll ..) id).trans h.methodsOf
  links := (linksOf_congr (links_bindAll ..) id).trans h.links

/-- A node that no record ties is as it was. -/
theorem sameAt_bindAll {id : String} (g : Graph) {rs : List ClassRecord}
    (hid : id ∉ rs.map (·.identifier)) : SameAt id g (g.bindAll rs) :=
  ⟨nodes_bindAll .., classId?_bindAll_of_not_mem _ hid, nodeInfo?_congr (info_bindAll ..) id,
    by rw [methods_bindAll], linksOf_congr (links_bindAll ..) id⟩

/-- A method with the texts that are stored under its name. -/
def withStoredTexts (previous : Dict String MethodRecord) (m : Method) : Method :=
  { m with
    description := (previous.get? m.name).bind (·.description)
    businessLogic := ((previous.get? m.name).map (·.businessLogic)).getD [] }

theorem carryTexts_of_plain (rows : List MethodRecord) {ms : List Method}
    (hms : ∀ m ∈ ms, m.Plain) :
    SyncEngine.carryTexts rows ms =
      ms.map (withStoredTexts (Dict.ofList (rows.map fun r => (r.name, r)))) := by
  unfold SyncEngine.carryTexts
  dsimp only
  refine List.map_congr_left fun m hm => ?_
  obtain ⟨hdescription, hlogic⟩ := hms m hm
  obtain ⟨name, description, businessLogic, _⟩ := m
  obtain rfl : description = none := hdescription
  obtain rfl : businessLogic = [] := hlogic
  unfold withStoredTexts
  dsimp only
  cases (Dict.ofList (rows.map fun r => (r.name, r))).get? name <;> rfl

/-- Carried texts are shared by methods of one name, if the methods have none of their own. -/
theorem sharedTexts_carryTexts (rows : List MethodRecord) {ms : List Method}
    (hms : ∀ m ∈ ms, m.Plain) : Method.SharedTexts (SyncEngine.carryTexts rows ms) := by
  rw [carryTexts_of_plain rows hms]
  intro m' hm' n' hn' heq
  obtain ⟨m, -, rfl⟩ := List.mem_map.1 hm'
  obtain ⟨n, -, rfl⟩ := List.mem_map.1 hn'
  unfold withStoredTexts at heq ⊢
  dsimp only at heq ⊢
  rw [heq]
  exact ⟨rfl, rfl⟩

end Graph

namespace SyncEngine

variable {s : RecordStore} {p head : String} {before g : Graph} {d : Draft} {t : Staged}
  {a : StoreAccess}

/-! ## Updated nodes -/

section Updated

variable {old : ClassRecord}

theorem sameAt_stageUpdated (s : RecordStore) (head : String) {j : String}
    (hj : j ≠ old.identifier) :
    Graph.SameAt j g (stageUpdated s head g old).1 := by
  unfold stageUpdated
  dsimp only
  refine (Graph.SameAt.bindClassId hj old.id).trans ?_
  refine (Graph.SameAt.setNodeInfo hj
    ⟨(g.bindClassId old.identifier old.id).kind old.identifier, old.description⟩).trans ?_
  split
  · exact .setMethods hj _
  · exact .refl j _

/-- An updated node's labels. -/
theorem updatedFrom_stageUpdated (s : RecordStore) (head : String)
    (hid : g.contains old.identifier = true) :
    Graph.UpdatedFrom s old g (stageUpdated s head g old).1 := by
  have hkind (c : String) :
      (g.bindClassId old.identifier c).kind old.identifier = g.kind old.identifier :=
    Graph.kind_congr (Graph.nodeInfo?_congr (Graph.info_bindClassId ..) _)
  have hnode (h : Graph) (hnodes : h.nodes = g.nodes) : h.contains old.identifier = true :=
    (Graph.contains_congr hnodes _).trans hid
  unfold stageUpdated
  dsimp only
  rw [Graph.methods_setNodeInfo, Graph.methods_bindClassId, hkind]
  cases hmethods : g.methods.get? old.identifier with
  | none =>
    have hempty : g.methodsOf old.identifier = [] := Dict.getD_of_get?_eq_none _ hmethods
    refine ⟨?_, ?_, ?_, ?_⟩
    · rw [Graph.classId?_congr (Graph.classIds_setNodeInfo ..), Graph.classId?_bindClassId,
        if_pos ⟨rfl, hid⟩]
    · rw [Graph.nodeInfo?_setNodeInfo, if_pos ⟨rfl, hnode _ (by simp)⟩]
    · rw [Graph.methodsOf_congr (Graph.methods_setNodeInfo ..),
        Graph.methodsOf_congr (Graph.methods_bindClassId ..), hempty]
      rfl
    · rw [Graph.linksOf_congr (Graph.links_setNodeInfo ..),
        Graph.linksOf_congr (Graph.links_bindClassId ..)]
  | some ms =>
    have hfound : g.methodsOf old.identifier = ms := Dict.getD_of_get?_eq_some _ hmethods
    refine ⟨?_, ?_, ?_, ?_⟩
    · rw [Graph.classId?_congr (Graph.classIds_setMethods ..),
        Graph.classId?_congr (Graph.classIds_setNodeInfo ..), Graph.classId?_bindClassId,
        if_pos ⟨rfl, hid⟩]
    · rw [Graph.nodeInfo?_congr (Graph.info_setMethods ..), Graph.nodeInfo?_setNodeInfo,
        if_pos ⟨rfl, hnode _ (by simp)⟩]
    · rw [Graph.methodsOf_setMethods, if_pos ⟨rfl, hnode _ (by simp)⟩, hfound]
    · rw [Graph.linksOf_congr (Graph.links_setMethods ..),
        Graph.linksOf_congr (Graph.links_setNodeInfo ..),
        Graph.linksOf_congr (Graph.links_bindClassId ..)]

/-- An updated node's record keeps all but kind, file and commit. -/
theorem stageUpdated_record (s : RecordStore) (head : String)
    (hid : g.contains old.identifier = true) :
    (stageUpdated s head g old).2.identifier = old.identifier ∧
      (stageUpdated s head g old).2.id = old.id ∧
      (stageUpdated s head g old).2.project = old.project ∧
      (stageUpdated s head g old).2.description = old.description ∧
      (stageUpdated s head g old).2.kind = g.kind old.identifier := by
  refine ⟨rfl, rfl, rfl, rfl, ?_⟩
  change (stageUpdated s head g old).1.kind old.identifier = _
  exact Graph.kind_of_nodeInfo? (updatedFrom_stageUpdated s head hid).info

end Updated

/-- A record that says of an updated node what the graph says, and else what was stored. -/
structure Restates (g : Graph) (old r : ClassRecord) : Prop where
  identifier : r.identifier = old.identifier
  id : r.id = old.id
  project : r.project = old.project
  description : r.description = old.description
  kind : r.kind = g.kind old.identifier

theorem stageAllUpdated_fst (s : RecordStore) (head : String) (g : Graph)
    (olds : List ClassRecord) :
    (stageAllUpdated s head g olds).1 =
      olds.foldl (fun g old => (stageUpdated s head g old).1) g := by
  induction olds generalizing g with
  | nil => rfl
  | cons old rest ih => exact ih (stageUpdated s head g old).1

/-- The updated nodes' records stand in the order of the former ones, one for each. -/
theorem stageAllUpdated_records (s : RecordStore) (head : String) {olds : List ClassRecord}
    (hnodup : (olds.map (·.identifier)).Nodup)
    (hnodes : ∀ old ∈ olds, g.contains old.identifier = true) :
    (stageAllUpdated s head g olds).2.map (·.id) = olds.map (·.id) ∧
      (∀ r ∈ (stageAllUpdated s head g olds).2, ∃ old ∈ olds, Restates g old r) ∧
      ∀ old ∈ olds, ∃ r ∈ (stageAllUpdated s head g olds).2, Restates g old r := by
  induction olds generalizing g with
  | nil => refine ⟨rfl, fun r hr => ?_, fun r hr => ?_⟩ <;> cases hr
  | cons old rest ih =>
    obtain ⟨hold, hrest⟩ := List.nodup_cons.1 hnodup
    obtain ⟨h1, h2, h3, h4, h5⟩ :=
      stageUpdated_record s head (hnodes old (List.mem_cons_self ..))
    have hfirst : Restates g old (stageUpdated s head g old).2 := ⟨h1, h2, h3, h4, h5⟩
    have hother (x : ClassRecord) (hx : x ∈ rest) :
        Graph.SameAt x.identifier g (stageUpdated s head g old).1 :=
      sameAt_stageUpdated s head fun heq => hold (List.mem_map.2 ⟨x, hx, heq⟩)
    obtain ⟨hids, hback, hforth⟩ := ih hrest fun x hx => by
      rw [(hother x hx).contains]
      exact hnodes x (List.mem_cons_of_mem _ hx)
    have hlater {x r : ClassRecord} (hx : x ∈ rest)
        (hr : Restates (stageUpdated s head g old).1 x r) : Restates g x r :=
      ⟨hr.identifier, hr.id, hr.project, hr.description,
        hr.kind.trans (Graph.kind_congr (hother x hx).info)⟩
    change ((stageUpdated s head g old).2 ::
      (stageAllUpdated s head (stageUpdated s head g old).1 rest).2).map (·.id) = _ ∧
        (∀ r ∈ (stageUpdated s head g old).2 ::
          (stageAllUpdated s head (stageUpdated s head g old).1 rest).2, _) ∧ _
    refine ⟨?_, fun r hr => ?_, fun x hx => ?_⟩
    · rw [List.map_cons, List.map_cons, hids, h2]
    · rcases List.mem_cons.1 hr with rfl | hr
      · exact ⟨old, List.mem_cons_self .., hfirst⟩
      · obtain ⟨x, hx, hrestates⟩ := hback r hr
        exact ⟨x, List.mem_cons_of_mem _ hx, hlater hx hrestates⟩
    · rcases List.mem_cons.1 hx with rfl | hx
      · exact ⟨_, List.mem_cons_self .., hfirst⟩
      · obtain ⟨r, hr, hrestates⟩ := hforth x hx
        exact ⟨r, List.mem_cons_of_mem _ hr, hlater hx hrestates⟩

/-- The former records of the updated nodes. -/
def updatedRecords (d : Draft) : List ClassRecord := d.plan.updated.filterMap d.records.get?

section UpdatedRecords

variable (hd : d.Fits s p)
include hd

theorem mem_updatedRecords {r : ClassRecord} :
    r ∈ updatedRecords d ↔ d.Finds r ∧ r.identifier ∈ d.plan.updated := by
  unfold updatedRecords
  constructor
  · intro hr
    obtain ⟨id, hid, hget⟩ := List.mem_filterMap.1 hr
    obtain ⟨hfound, rfl⟩ := hd.finds_of_get? hget
    exact ⟨hfound, hid⟩
  · rintro ⟨hr, hid⟩
    exact List.mem_filterMap.2 ⟨r.identifier, hid, hr⟩

/-- Every updated node has a former record. -/
theorem identifiers_updatedRecords : (updatedRecords d).map (·.identifier) = d.plan.updated := by
  have hstored : ∀ id ∈ d.plan.updated, ∃ r, d.records.get? id = some r ∧ r.identifier = id := by
    intro id hid
    have hkey := ((hd.plan.kept id).1 (Or.inl hid)).2
    obtain ⟨r, hr⟩ := Dict.exists_get?_of_contains ((Dict.contains_iff_mem_keys _ _).2 hkey)
    refine ⟨r, hr, ?_⟩
    rw [hd.records] at hr
    exact (get?_recordsByIdentifier hr).2
  unfold updatedRecords
  generalize d.plan.updated = ids at hstored
  induction ids with
  | nil => rfl
  | cons id rest ih =>
    obtain ⟨r, hr, heq⟩ := hstored id (List.mem_cons_self ..)
    rw [List.filterMap_cons, hr]
    dsimp only
    rw [List.map_cons, heq, ih fun j hj => hstored j (List.mem_cons_of_mem _ hj)]

end UpdatedRecords

/-! ## All nodes -/

theorem restoreUnchanged_keeps (s : RecordStore) (hd : d.Fits s p) :
    (restoreUnchanged s d).nodes = d.graph.nodes ∧ (restoreUnchanged s d).WellFormed := by
  have hstep (g : Graph) (hg : g.WellFormed) (r : ClassRecord) (names : Dict String String) :
      (g.restoreNode s r names).nodes = g.nodes ∧ (g.restoreNode s r names).WellFormed := by
    have hlabels : (g.labelStored s r).WellFormed :=
      (((hg.bindClassId _ _).setNodeInfo _ _).setMethods _ _).clearMethodParameters _
    rw [Graph.restoreNode_eq, ← g.nodes_labelStored s r]
    generalize s.linksFor r.id = ls
    generalize g.labelStored s r = h at hlabels
    induction ls generalizing h with
    | nil => exact ⟨rfl, hlabels⟩
    | cons l rest ih =>
      have hwf : (h.addFoundLink r.identifier names l).WellFormed := by
        unfold Graph.addFoundLink
        split
        · exact hlabels.addMethodParameter _ _ _ _
        · exact hlabels
      have hnodes : (h.addFoundLink r.identifier names l).nodes = h.nodes := by
        unfold Graph.addFoundLink
        split <;> simp
      obtain ⟨hrest, hwf'⟩ := ih _ hwf
      exact ⟨hrest.trans hnodes, hwf'⟩
  have hstart := hd.bare.wellFormed
  unfold restoreUnchanged
  dsimp only
  generalize Dict.ofList (d.records.values.map fun r => (r.id, r.identifier)) = names
  generalize d.plan.unchanged = ids
  generalize d.graph = g at hstart
  induction ids generalizing g with
  | nil => exact ⟨rfl, hstart⟩
  | cons id rest ih =>
    rw [List.foldl_cons]
    split
    · next r hr =>
      obtain ⟨hnodes, hwf⟩ := hstep g hstart r names
      obtain ⟨hrest, hwf'⟩ := ih _ hwf
      exact ⟨hrest.trans hnodes, hwf'⟩
    · exact ih g hstart

theorem nodes_stageUpdated (s : RecordStore) (head : String) (g : Graph) (old : ClassRecord) :
    (stageUpdated s head g old).1.nodes = g.nodes := by
  unfold stageUpdated
  dsimp only
  split <;> simp

theorem stageAllUpdated_keeps (s : RecordStore) (head : String) (hg : g.WellFormed)
    (olds : List ClassRecord) :
    (stageAllUpdated s head g olds).1.nodes = g.nodes ∧
      (stageAllUpdated s head g olds).1.WellFormed := by
  rw [stageAllUpdated_fst]
  induction olds generalizing g with
  | nil => exact ⟨rfl, hg⟩
  | cons old rest ih =>
    have hstep : (stageUpdated s head g old).1.WellFormed := by
      unfold stageUpdated
      dsimp only
      split
      · exact ((hg.bindClassId _ _).setNodeInfo _ _).setMethods _ _
      · exact (hg.bindClassId _ _).setNodeInfo _ _
    obtain ⟨hrest, hwf⟩ := ih hstep
    exact ⟨hrest.trans (nodes_stageUpdated s head g old), hwf⟩

/-- The unchanged and updated nodes of a draft are labelled, and the added ones are not yet. -/
theorem retie_at (head : String) (hd : d.Fits s p) :
    (∀ r, d.Finds r → r.identifier ∈ d.plan.unchanged →
        Graph.RestoredFrom s d.names r (retie s head d).1) ∧
      (∀ r, d.Finds r → r.identifier ∈ d.plan.updated →
        Graph.UpdatedFrom s r d.graph (retie s head d).1) ∧
      ∀ id ∈ d.plan.added, Graph.SameAt id d.graph (retie s head d).1 := by
  obtain ⟨hunchanged, hothers⟩ := restoreUnchanged_at hd
  have hnodup : ((updatedRecords d).map (·.identifier)).Nodup := by
    rw [identifiers_updatedRecords hd]
    exact hd.plan.updated_nodup
  obtain ⟨hupdated, hrest⟩ := Graph.foldl_at ClassRecord.identifier
    (fun g old j hj => sameAt_stageUpdated s head hj) hnodup (restoreUnchanged s d)
  rw [← stageAllUpdated_fst, identifiers_updatedRecords hd] at hrest
  rw [← stageAllUpdated_fst] at hupdated
  refine ⟨fun r hr hid => ?_, fun r hr hid => ?_, fun id hid => ?_⟩
  · exact (hunchanged r hr hid).congr (hrest _ fun hmem => hd.plan.apart _ hmem hid)
  · obtain ⟨g, hbefore, hafter⟩ := hupdated r ((mem_updatedRecords hd).2 ⟨hr, hid⟩)
    have hdraft := (hothers _ (hd.plan.apart _ hid)).trans hbefore
    have hnode : g.contains r.identifier = true := by
      rw [hdraft.contains]
      exact ((hd.plan.kept r.identifier).1 (Or.inl hid)).1
    exact (updatedFrom_stageUpdated s head hnode).congr hdraft hafter
  · obtain ⟨hnode, hfresh⟩ := (hd.plan.added id).1 hid
    have hkept : ¬(id ∈ d.plan.updated ∨ id ∈ d.plan.unchanged) :=
      fun hk => hfresh ((hd.plan.kept id).1 hk).2
    rw [not_or] at hkept
    exact (hothers id hkept.2).trans (hrest id hkept.1)

/-- The node of every identifier that is kept has a record. -/
theorem Draft.Fits.exists_record (hd : d.Fits s p) {id : String}
    (hid : id ∈ d.plan.updated ∨ id ∈ d.plan.unchanged) :
    ∃ r ∈ s.findByProject p, r.identifier = id := by
  have hkey := ((hd.plan.kept id).1 hid).2
  rwa [hd.records, mem_keys_recordsByIdentifier] at hkey

/-- How the nodes of a staged graph are told by what is stored and by the draft. -/
structure Staged.LabelledFrom (t : Staged) (s : RecordStore) : Prop where
  nodes : t.graph.nodes = t.draft.graph.nodes
  wellFormed : t.graph.WellFormed
  unchanged : ∀ r, t.draft.Finds r → r.identifier ∈ t.draft.plan.unchanged →
    Graph.RestoredFrom s t.draft.names r t.graph
  updated : ∀ r, t.draft.Finds r → r.identifier ∈ t.draft.plan.updated →
    Graph.UpdatedFrom s r t.draft.graph t.graph
  added : ∀ id ∈ t.draft.plan.added, Graph.AddedAt id t.draft.graph t.graph
  tied : ∀ r ∈ t.added, t.graph.classId? r.identifier = some r.id

/-- What the nodes of a staged graph have from the former graph and from the draft. -/
structure Staged.Labelled (t : Staged) (before : Graph) : Prop where
  nodes : t.graph.nodes = t.draft.graph.nodes
  wellFormed : t.graph.WellFormed
  unchanged : ∀ id ∈ t.draft.plan.unchanged, Graph.RestoredAt id before t.graph
  updated : ∀ id ∈ t.draft.plan.updated, Graph.UpdatedAt id before t.draft.graph t.graph
  added : ∀ id ∈ t.draft.plan.added, Graph.AddedAt id t.draft.graph t.graph
  tied : ∀ r ∈ t.added, t.graph.classId? r.identifier = some r.id

/-- The records of added nodes are one for each, in their order. -/
theorem Staged.Fits.identifiers_added (ht : t.Fits a p head) :
    t.added.map (·.identifier) = t.draft.plan.added := by
  have hfiles := files_stagedRecords p (some head) (retie a.store head t.draft).1 a.issued
    (addedFiles t.draft (retie a.store head t.draft).1)
  have hnames := congrArg (List.map Prod.fst) hfiles
  rw [List.map_map] at hnames
  rw [ht.added]
  refine hnames.trans ?_
  unfold addedFiles
  rw [List.map_map]
  exact List.map_id' _

theorem Staged.Fits.labelledFrom (ht : t.Fits a p head) : t.LabelledFrom a.store := by
  have hd := ht.draft
  obtain ⟨hrestored, hrestoredWf⟩ := restoreUnchanged_keeps a.store hd
  obtain ⟨hretied, hretiedWf⟩ := stageAllUpdated_keeps a.store head hrestoredWf
    (updatedRecords t.draft)
  have hnodes : (retie a.store head t.draft).1.nodes = t.draft.graph.nodes :=
    hretied.trans hrestored
  obtain ⟨hunchanged, hupdated, hadded⟩ := retie_at head hd
  have hkept {id : String} (hid : id ∈ t.draft.plan.updated ∨ id ∈ t.draft.plan.unchanged) :
      id ∉ t.added.map (·.identifier) := by
    rw [ht.identifiers_added]
    exact fun hmem => ((hd.plan.added id).1 hmem).2 ((hd.plan.kept id).1 hid).2
  have hsame {id : String} (hid : id ∉ t.added.map (·.identifier)) :
      Graph.SameAt id (retie a.store head t.draft).1 t.graph := by
    rw [ht.graph]
    exact Graph.sameAt_bindAll _ hid
  refine ⟨?_, ?_, fun r hr hid => ?_, fun r hr hid => ?_, fun id hid => ?_, fun r hr => ?_⟩
  · rw [ht.graph, Graph.nodes_bindAll, hnodes]
  · rw [ht.graph]
    exact hretiedWf.bindAll _
  · exact (hunchanged r hr hid).congr (hsame (hkept (Or.inr hid)))
  · exact (hupdated r hr hid).congr (.refl _ _) (hsame (hkept (Or.inl hid)))
  · rw [ht.graph]
    exact (hadded id hid).addedAt_bindAll t.added
  · have hnodup : (t.added.map (·.identifier)).Nodup := by
      rw [ht.identifiers_added]
      exact hd.plan.added_nodup
    have hnode : (retie a.store head t.draft).1.contains r.identifier = true := by
      have hmem : r.identifier ∈ t.draft.plan.added := by
        rw [← ht.identifiers_added]
        exact List.mem_map_of_mem hr
      rw [Graph.contains_congr hnodes]
      exact ((hd.plan.added _).1 hmem).1
    rw [ht.graph]
    exact Graph.classId?_bindAll_of_mem _ hnodup hr hnode

theorem Staged.Fits.labelled (ht : t.Fits a p head) (h : before.Agrees a.store p)
    (hs : a.store.Consistent) : t.Labelled before := by
  have hdistinct := h.distinct hs
  have hlabelled := ht.labelledFrom
  refine ⟨hlabelled.nodes, hlabelled.wellFormed, fun id hid => ?_, fun id hid => ?_,
    hlabelled.added, hlabelled.tied⟩
  · obtain ⟨r, hr, rfl⟩ := ht.draft.exists_record (Or.inr hid)
    exact (hlabelled.unchanged r (ht.draft.finds hdistinct hr) hid).restoredAt h hs
      (ht.draft.get?_names hdistinct hs) hr
  · obtain ⟨r, hr, rfl⟩ := ht.draft.exists_record (Or.inl hid)
    exact (hlabelled.updated r (ht.draft.finds hdistinct hr) hid).updatedAt h hs hr

/-- The records of updated nodes restate the former ones with the kinds of the draft. -/
theorem Staged.Fits.updated_restates (ht : t.Fits a p head) :
    t.updated.map (·.id) = (updatedRecords t.draft).map (·.id) ∧
      (∀ r ∈ t.updated, ∃ old ∈ updatedRecords t.draft, Restates t.draft.graph old r) ∧
      ∀ old ∈ updatedRecords t.draft, ∃ r ∈ t.updated, Restates t.draft.graph old r := by
  have hd := ht.draft
  obtain ⟨-, hothers⟩ := restoreUnchanged_at hd
  have hsame {old : ClassRecord} (hold : old ∈ updatedRecords t.draft) :
      Graph.SameAt old.identifier t.draft.graph (restoreUnchanged a.store t.draft) :=
    hothers _ (hd.plan.apart _ ((mem_updatedRecords hd).1 hold).2)
  have hnodup : ((updatedRecords t.draft).map (·.identifier)).Nodup := by
    rw [identifiers_updatedRecords hd]
    exact hd.plan.updated_nodup
  have hnodes : ∀ old ∈ updatedRecords t.draft,
      (restoreUnchanged a.store t.draft).contains old.identifier = true := by
    intro old hold
    rw [(hsame hold).contains]
    exact ((hd.plan.kept _).1 (Or.inl ((mem_updatedRecords hd).1 hold).2)).1
  have hdraft {old r : ClassRecord} (hold : old ∈ updatedRecords t.draft)
      (hr : Restates (restoreUnchanged a.store t.draft) old r) :
      Restates t.draft.graph old r :=
    ⟨hr.identifier, hr.id, hr.project, hr.description,
      hr.kind.trans (Graph.kind_congr (hsame hold).info)⟩
  obtain ⟨hids, hback, hforth⟩ := stageAllUpdated_records a.store head hnodup hnodes
  rw [ht.updated]
  refine ⟨hids, fun r hr => ?_, fun old hold => ?_⟩
  · obtain ⟨old, hold, hrestates⟩ := hback r hr
    exact ⟨old, hold, hdraft hold hrestates⟩
  · obtain ⟨r, hr, hrestates⟩ := hforth old hold
    exact ⟨r, hr, hdraft hold hrestates⟩

end SyncEngine

end CodeAtlas
