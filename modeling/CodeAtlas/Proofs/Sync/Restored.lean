import CodeAtlas.Proofs.Agreement.Basic
import CodeAtlas.Proofs.Graph.Relabel
import CodeAtlas.Proofs.Record.Patched
import CodeAtlas.Proofs.Sync.Stage

/-!
# Nodes that a sync restores

An unchanged node is not examined again but gets back what is stored about it. This file says
what that is, and proves that, if the former graph agreed with the store, the node is afterwards
as it was in that graph, except for the links to nodes that are gone.
-/

namespace CodeAtlas

open RecordStore

/-! ## Records by identifier -/

/-- Records with which a graph agrees have different identifiers. -/
theorem Graph.Agrees.distinct {g : Graph} {s : RecordStore} {p : String} (h : g.Agrees s p)
    (hs : s.Consistent) : s.Distinct p := by
  have hids := List.pairwise_map.1 (nodup_ids_findByProject hs p)
  refine List.pairwise_map.2 (hids.imp_of_mem fun {r r'} hr hr' hne heq => hne ?_)
  rw [h.eq_of_identifier hs hr hr' heq]

namespace SyncEngine

variable {s : RecordStore} {p : String}

section RecordsByIdentifier

variable (h : s.Distinct p)
include h

/-- Every record of the project is found under its identifier. -/
theorem get?_recordsByIdentifier_of_mem {r : ClassRecord} (hr : r ∈ s.findByProject p) :
    (recordsByIdentifier s p).get? r.identifier = some r := by
  refine Dict.get?_ofList_of_mem ?_ (List.mem_map.2 ⟨r, hr, rfl⟩)
  rw [List.map_map]
  exact h

theorem values_recordsByIdentifier :
    (recordsByIdentifier s p).values = s.findByProject p := by
  have hvalues := Dict.values_foldl_insert_of_new ClassRecord.identifier
    (s.findByProject p) h
    (d := .empty) fun _ _ hmem => by cases hmem
  unfold recordsByIdentifier Dict.ofList
  rw [List.foldl_map]
  exact hvalues

omit h in
theorem mem_keys_recordsByIdentifier {id : String} :
    id ∈ (recordsByIdentifier s p).keys ↔ ∃ r ∈ s.findByProject p, r.identifier = id := by
  rw [← Dict.contains_iff_mem_keys]
  unfold recordsByIdentifier
  rw [Dict.contains_ofList, List.map_map]
  exact List.mem_map

end RecordsByIdentifier

end SyncEngine

/-! ## One node -/

namespace Graph

variable {g : Graph} {s : RecordStore} {id : String}

/-- The link that a link record stands for, if its target is a node. -/
def foundLink? (g : Graph) (names : Dict String String) (l : LinkRecord) :
    Option ParameterLink :=
  (names.get? l.targetId).bind fun target =>
    if g.contains target then some ⟨l.methodName, l.position, target⟩ else none

theorem foundLink?_congr {g h : Graph} (hnodes : h.nodes = g.nodes) (names : Dict String String) :
    h.foundLink? names = g.foundLink? names := by
  funext l
  unfold foundLink?
  simp only [contains_congr hnodes]

/-- One more link record of a node. -/
def addFoundLink (id : String) (names : Dict String String) (g : Graph) (l : LinkRecord) : Graph :=
  match names.get? l.targetId with
  | some target => g.addMethodParameter id l.methodName l.position target
  | none => g

theorem sameAt_addFoundLink {j : String} (hj : j ≠ id) (names : Dict String String)
    (l : LinkRecord) : SameAt j g (g.addFoundLink id names l) := by
  unfold addFoundLink
  split
  · exact .addMethodParameter hj _ _ _
  · exact .refl j g

theorem linksOf_addFoundLink (hid : g.contains id = true) (names : Dict String String)
    (l : LinkRecord) :
    (g.addFoundLink id names l).linksOf id =
      regroup (g.linksOf id) (g.foundLink? names l).toList := by
  unfold addFoundLink foundLink?
  cases names.get? l.targetId with
  | none => rfl
  | some target =>
    dsimp only [Option.bind_some]
    rw [linksOf_addMethodParameter]
    by_cases htarget : g.contains target = true
    · rw [if_pos ⟨rfl, hid, htarget⟩, if_pos htarget]
      rfl
    · rw [if_neg fun h => htarget h.2.2, if_neg htarget]
      rfl

/-- What the link records of a node do to a graph: they add the links whose targets are nodes,
and nothing else. -/
theorem foldl_addFoundLink (hid : g.contains id = true) (names : Dict String String)
    (ls : List LinkRecord) :
    (ls.foldl (addFoundLink id names) g).nodes = g.nodes ∧
      (ls.foldl (addFoundLink id names) g).classIds = g.classIds ∧
      (ls.foldl (addFoundLink id names) g).info = g.info ∧
      (ls.foldl (addFoundLink id names) g).methods = g.methods ∧
      (ls.foldl (addFoundLink id names) g).linksOf id =
        regroup (g.linksOf id) (ls.filterMap (g.foundLink? names)) ∧
      ∀ j, j ≠ id → SameAt j g (ls.foldl (addFoundLink id names) g) := by
  induction ls generalizing g with
  | nil => exact ⟨rfl, rfl, rfl, rfl, rfl, fun j _ => .refl j g⟩
  | cons l rest ih =>
    have hnodes : (g.addFoundLink id names l).nodes = g.nodes := by
      unfold addFoundLink
      split <;> simp
    have hids : (g.addFoundLink id names l).classIds = g.classIds := by
      unfold addFoundLink
      split <;> simp
    have hinfo : (g.addFoundLink id names l).info = g.info := by
      unfold addFoundLink
      split <;> simp
    have hmethods : (g.addFoundLink id names l).methods = g.methods := by
      unfold addFoundLink
      split <;> simp
    obtain ⟨h1, h2, h3, h4, h5, h6⟩ := ih ((contains_congr hnodes id).trans hid)
    rw [List.foldl_cons]
    refine ⟨h1.trans hnodes, h2.trans hids, h3.trans hinfo, h4.trans hmethods, ?_, fun j hj => ?_⟩
    · rw [h5, linksOf_addFoundLink hid, foundLink?_congr hnodes, List.filterMap_cons]
      cases g.foundLink? names l <;> rfl
    · exact (sameAt_addFoundLink hj names l).trans (h6 j hj)

/-- The node with its stored kind, description and methods, before its links are added. -/
def labelStored (g : Graph) (s : RecordStore) (r : ClassRecord) : Graph :=
  (((g.bindClassId r.identifier r.id).setNodeInfo r.identifier
    ⟨r.kind, r.description⟩).setMethods r.identifier
      ((s.methodsFor r.id).map MethodRecord.method)).clearMethodParameters r.identifier

theorem restoreNode_eq (g : Graph) (s : RecordStore) (r : ClassRecord)
    (names : Dict String String) :
    g.restoreNode s r names =
      (s.linksFor r.id).foldl (addFoundLink r.identifier names) (g.labelStored s r) := rfl

@[simp] theorem nodes_labelStored (g : Graph) (s : RecordStore) (r : ClassRecord) :
    (g.labelStored s r).nodes = g.nodes := by
  simp [labelStored]

/-- Restoring a node labels no other. -/
theorem sameAt_restoreNode {r : ClassRecord} {j : String} (hj : j ≠ r.identifier)
    (names : Dict String String) : SameAt j g (g.restoreNode s r names) := by
  have hlabels : SameAt j g (g.labelStored s r) := by
    refine (SameAt.bindClassId hj r.id).trans ?_
    refine (SameAt.setNodeInfo hj ⟨r.kind, r.description⟩).trans ?_
    exact (SameAt.setMethods hj _).trans (.clearMethodParameters hj)
  rw [restoreNode_eq]
  generalize s.linksFor r.id = ls
  generalize g.labelStored s r = h at hlabels
  induction ls generalizing h with
  | nil => exact hlabels
  | cons l rest ih => exact ih _ (hlabels.trans (sameAt_addFoundLink hj names l))

/-- A node that is as the rows about its class say: it has the record's kind and description and
the methods, and those of the links whose targets are nodes. -/
structure RestoredFrom (s : RecordStore) (names : Dict String String) (r : ClassRecord)
    (now : Graph) : Prop where
  classId : now.classId? r.identifier = some r.id
  info : now.nodeInfo? r.identifier = some ⟨r.kind, r.description⟩
  methods : now.methodsOf r.identifier = (s.methodsFor r.id).map MethodRecord.method
  links : now.linksOf r.identifier =
    regroup .empty ((s.linksFor r.id).filterMap (now.foundLink? names))

theorem RestoredFrom.congr {names : Dict String String} {r : ClassRecord} {now later : Graph}
    (h : RestoredFrom s names r now) (hsame : SameAt r.identifier now later) :
    RestoredFrom s names r later where
  classId := hsame.classId.trans h.classId
  info := hsame.info.trans h.info
  methods := hsame.methodsOf.trans h.methods
  links := by rw [hsame.links, h.links, foundLink?_congr hsame.nodes]

/-- A restored node is as the rows say. -/
theorem restoredFrom_restoreNode {r : ClassRecord} (hid : g.contains r.identifier = true)
    (names : Dict String String) : RestoredFrom s names r (g.restoreNode s r names) := by
  have hlabelled : (g.labelStored s r).contains r.identifier = true :=
    (contains_congr (nodes_labelStored g s r) _).trans hid
  obtain ⟨hnodes, hids, hinfo, hmethods, hlinks, -⟩ :=
    foldl_addFoundLink hlabelled names (s.linksFor r.id)
  have hnode (h : Graph) (hnodes : h.nodes = g.nodes) : h.contains r.identifier = true :=
    (contains_congr hnodes _).trans hid
  rw [restoreNode_eq]
  refine ⟨?_, ?_, ?_, ?_⟩
  · rw [classId?_congr hids]
    unfold labelStored
    rw [classId?_congr (classIds_clearMethodParameters ..), classId?_congr (classIds_setMethods ..),
      classId?_congr (classIds_setNodeInfo ..), classId?_bindClassId, if_pos ⟨rfl, hid⟩]
  · rw [nodeInfo?_congr hinfo]
    unfold labelStored
    rw [nodeInfo?_congr (info_clearMethodParameters ..), nodeInfo?_congr (info_setMethods ..),
      nodeInfo?_setNodeInfo, if_pos ⟨rfl, hnode _ (nodes_bindClassId ..)⟩]
  · rw [methodsOf_congr hmethods]
    unfold labelStored
    rw [methodsOf_congr (methods_clearMethodParameters ..), methodsOf_setMethods,
      if_pos ⟨rfl, hnode _ (by simp)⟩]
  · rw [hlinks, foundLink?_congr hnodes]
    unfold labelStored
    rw [linksOf_clearMethodParameters, if_pos rfl]

/-- A node that is now as it was before, except for the links to nodes that are gone. -/
structure RestoredAt (id : String) (before now : Graph) : Prop where
  classId : now.classId? id = before.classId? id
  kind : now.kind id = before.kind id
  description : now.description? id = before.description? id
  methods : now.methodsOf id = before.methodsOf id
  links : now.linksOf id = keepLinks now.contains (before.linksOf id)

/-- The links that stored links stand for are those of the former graph whose targets are nodes
still. -/
theorem filterMap_foundLink {before : Graph} {p : String} (h : before.Agrees s p)
    {names : Dict String String}
    (hnames : ∀ r ∈ s.findByProject p, names.get? r.id = some r.identifier) {c : String}
    (hc : before.classId? id = some c) :
    (before.linkRecords id).filterMap (g.foundLink? names) =
      (before.linksOf id).toList.flatMap fun e => e.2.filter fun l => g.contains l.target := by
  have hnode := h.wellFormed.links.linksOf id
  rw [linkRecords_of_tied hc, List.filterMap_flatMap]
  refine List.flatMap_congr fun e he => ?_
  rw [List.filterMap_filterMap, ← List.filterMap_eq_filter]
  refine List.filterMap_congr fun l hl => ?_
  obtain ⟨r, hr, heq, hstored⟩ := h.stored l.target (h.wellFormed.contains_target he hl)
  have hnamed : l.methodName = e.1 :=
    hnode.named e.1 e.2 ((Dict.mem_entries_iff hnode.nodup e.1 e.2).1 he) l hl
  rw [← heq, hstored.tied, Option.map_some, Option.bind_some]
  unfold foundLink?
  dsimp only
  rw [hnames r hr, Option.bind_some, heq, Option.guard]
  by_cases hkept : g.contains l.target = true
  · rw [if_pos hkept, if_pos hkept, ← hnamed]
  · rw [if_neg hkept, if_neg hkept]

/-- A node of a former graph that agreed with the store is restored as it was. -/
theorem RestoredFrom.restoredAt {before now : Graph} {p : String} {r : ClassRecord}
    {names : Dict String String} (hnow : RestoredFrom s names r now) (h : before.Agrees s p)
    (hs : s.Consistent)
    (hnames : ∀ r ∈ s.findByProject p, names.get? r.id = some r.identifier)
    (hr : r ∈ s.findByProject p) : RestoredAt r.identifier before now := by
  have hstored := h.nodeStored hs hr
  have hnode := h.wellFormed.links.linksOf r.identifier
  have hget (e : String × List ParameterLink) (he : e ∈ (before.linksOf r.identifier).toList) :=
    (Dict.mem_entries_iff hnode.nodup e.1 e.2).1 he
  refine ⟨hnow.classId.trans hstored.tied.symm, ?_, ?_, hnow.methods.trans hstored.methods, ?_⟩
  · rw [← hstored.kind]
    exact kind_of_nodeInfo? hnow.info
  · rw [← hstored.description]
    exact description?_of_nodeInfo? hnow.info
  · rw [hnow.links, hstored.links, filterMap_foundLink h hnames hstored.tied]
    have hgroups := regroup_flatMap
      ((before.linksOf r.identifier).toList.map fun e =>
        (e.1, e.2.filter fun l => now.contains l.target))
      (by rw [List.map_map]; exact hnode.nodup)
      (fun e' he' => by
        obtain ⟨e, he, rfl⟩ := List.mem_map.1 he'
        exact (hnode.links_nodup e.1 e.2 (hget e he)).filter _)
      (fun e' he' l hl => by
        obtain ⟨e, he, rfl⟩ := List.mem_map.1 he'
        exact hnode.named e.1 e.2 (hget e he) l (List.mem_filter.1 hl).1)
    rw [List.flatMap_map] at hgroups
    exact hgroups

end Graph

/-! ## All unchanged nodes -/

namespace SyncEngine

variable {s : RecordStore} {p : String} {d : Draft}

/-- The identifiers of a draft's records by their ids. -/
def Draft.names (d : Draft) : Dict String String :=
  Dict.ofList (d.records.values.map fun r => (r.id, r.identifier))

theorem Draft.Fits.get?_names (hd : d.Fits s p) (h : s.Distinct p) (hs : s.Consistent) :
    ∀ r ∈ s.findByProject p, d.names.get? r.id = some r.identifier := by
  intro r hr
  unfold Draft.names
  rw [hd.records, values_recordsByIdentifier h]
  refine Dict.get?_ofList_of_mem ?_ (List.mem_map.2 ⟨r, hr, rfl⟩)
  rw [List.map_map]
  exact nodup_ids_findByProject hs p

/-- Whether a record is the one that a draft finds under its identifier. -/
def Draft.Finds (d : Draft) (r : ClassRecord) : Prop := d.records.get? r.identifier = some r

/-- Without repeated identifiers all records of the project are found. -/
theorem Draft.Fits.finds (hd : d.Fits s p) (h : s.Distinct p) {r : ClassRecord}
    (hr : r ∈ s.findByProject p) : d.Finds r := by
  unfold Draft.Finds
  rw [hd.records]
  exact get?_recordsByIdentifier_of_mem h hr

theorem Draft.Fits.mem_of_finds (hd : d.Fits s p) {r : ClassRecord} (hr : d.Finds r) :
    r ∈ s.findByProject p := by
  unfold Draft.Finds at hr
  rw [hd.records] at hr
  exact (get?_recordsByIdentifier hr).1

/-- What is found is found under its own identifier. -/
theorem Draft.Fits.finds_of_get? (hd : d.Fits s p) {id : String} {r : ClassRecord}
    (h : d.records.get? id = some r) : d.Finds r ∧ r.identifier = id := by
  have hget := h
  rw [hd.records] at hget
  obtain ⟨-, rfl⟩ := get?_recordsByIdentifier hget
  exact ⟨h, rfl⟩

/-- The unchanged nodes are given back their records one by one. -/
theorem restoreUnchanged_eq (s : RecordStore) (d : Draft) :
    restoreUnchanged s d = d.plan.unchanged.foldl
      (fun g id => (d.records.get? id).elim g fun r => g.restoreNode s r d.names) d.graph := by
  refine congrFun (congrFun (congrArg List.foldl ?_) d.graph) d.plan.unchanged
  funext g id
  cases d.records.get? id with
  | some r => rfl
  | none => rfl

/-- Every unchanged node is restored from its record, and the others are as in the draft. -/
theorem restoreUnchanged_at (hd : d.Fits s p) :
    (∀ r, d.Finds r → r.identifier ∈ d.plan.unchanged →
        Graph.RestoredFrom s d.names r (restoreUnchanged s d)) ∧
      ∀ j, j ∉ d.plan.unchanged → Graph.SameAt j d.graph (restoreUnchanged s d) := by
  have hother (g : Graph) (id j : String) (hj : j ≠ id) :
      Graph.SameAt j g ((d.records.get? id).elim g fun r => g.restoreNode s r d.names) := by
    cases hr : d.records.get? id with
    | some r =>
      rw [hd.records] at hr
      obtain ⟨-, rfl⟩ := get?_recordsByIdentifier hr
      exact Graph.sameAt_restoreNode hj d.names
    | none => exact .refl j g
  have hnodup : (d.plan.unchanged.map fun id => id).Nodup := by
    rw [List.map_id']
    exact hd.plan.unchanged_nodup
  rw [restoreUnchanged_eq]
  obtain ⟨hown, hothers⟩ := Graph.foldl_at (fun id => id) hother hnodup d.graph
  refine ⟨fun r hr hunchanged => ?_, fun j hj => hothers j (by rwa [List.map_id'])⟩
  obtain ⟨g, hbefore, hafter⟩ := hown r.identifier hunchanged
  have hget : d.records.get? r.identifier = some r := hr
  have hnode : g.contains r.identifier = true := by
    rw [hbefore.contains]
    exact ((hd.plan.kept r.identifier).1 (Or.inr hunchanged)).1
  rw [hget] at hafter
  exact (Graph.restoredFrom_restoreNode hnode d.names).congr hafter

end SyncEngine

end CodeAtlas
