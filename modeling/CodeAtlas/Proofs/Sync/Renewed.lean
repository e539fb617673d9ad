import CodeAtlas.Proofs.Run.Described
import CodeAtlas.Proofs.Sync.Relabelled

/-!
# Graphs that are renewed

A sync of everything examines all units again and gives them back the texts that are stored
about them. This file proves that the graph which it stages is the examined one but for these
texts and for the records to which the nodes are tied.
-/

namespace CodeAtlas

open RecordStore

/-! ## Texts that are stored -/

/-- The description that is stored for a unit of a project. -/
def RecordStore.storedDescription? (s : RecordStore) (p id : String) : Option String :=
  ((SyncEngine.recordsByIdentifier s p).get? id).bind (·.description)

/-- The method rows of a unit of a project by name; of several the last counts. -/
def RecordStore.storedTexts (s : RecordStore) (p id : String) : Dict String MethodRecord :=
  match (SyncEngine.recordsByIdentifier s p).get? id with
  | some r => Dict.ofList ((s.methodsFor r.id).map fun m => (m.name, m))
  | none => .empty

namespace Graph

/-- What a graph has in common with a fresh one, and which texts it has: those that are stored.
Only the records to which nodes are tied are left open. -/
structure RenewedFrom (s : RecordStore) (p : String) (fresh now : Graph) : Prop where
  nodes : now.nodes = fresh.nodes
  outgoing : now.outgoing = fresh.outgoing
  incoming : now.incoming = fresh.incoming
  entryPoints : now.entryPoints = fresh.entryPoints
  links : now.links = fresh.links
  /-- The kinds are the same, and the descriptions are those that are stored. -/
  info : now.info = fresh.info.mapValues fun id i => ⟨i.kind, s.storedDescription? p id⟩
  /-- The methods are the same but for their texts, which are those that are stored. -/
  methods : now.methods = fresh.methods.mapValues fun id ms =>
    ms.map (withStoredTexts (s.storedTexts p id))

/-! ## Steps that relabel classified nodes -/

/-- Graphs with the same nodes, edges, entry points and links, in which the same nodes are
classified. -/
structure SameFrame (g h : Graph) : Prop where
  nodes : h.nodes = g.nodes
  outgoing : h.outgoing = g.outgoing
  incoming : h.incoming = g.incoming
  entryPoints : h.entryPoints = g.entryPoints
  links : h.links = g.links
  info : h.info.keys = g.info.keys
  methods : h.methods.keys = g.methods.keys

variable {g h k : Graph} {id : String}

theorem SameFrame.refl (g : Graph) : SameFrame g g := ⟨rfl, rfl, rfl, rfl, rfl, rfl, rfl⟩

theorem SameFrame.trans (hgh : SameFrame g h) (hhk : SameFrame h k) : SameFrame g k where
  nodes := hhk.nodes.trans hgh.nodes
  outgoing := hhk.outgoing.trans hgh.outgoing
  incoming := hhk.incoming.trans hgh.incoming
  entryPoints := hhk.entryPoints.trans hgh.entryPoints
  links := hhk.links.trans hgh.links
  info := hhk.info.trans hgh.info
  methods := hhk.methods.trans hgh.methods

theorem SameFrame.classified (hgh : SameFrame g h) (hid : g.Classified id) : h.Classified id := by
  unfold Classified at hid ⊢
  rw [Dict.contains_iff_mem_keys, Dict.contains_iff_mem_keys] at hid ⊢
  rwa [hgh.info, hgh.methods]

theorem sameFrame_bindClassId (g : Graph) (id c : String) : SameFrame g (g.bindClassId id c) := by
  unfold bindClassId
  split
  · exact ⟨rfl, rfl, rfl, rfl, rfl, rfl, rfl⟩
  · exact .refl g

theorem sameFrame_setNodeInfo (hid : g.Classified id) (i : NodeInfo) :
    SameFrame g (g.setNodeInfo id i) := by
  have hkey := (Dict.contains_iff_mem_keys _ _).1 hid.1
  unfold setNodeInfo
  split
  · exact ⟨rfl, rfl, rfl, rfl, rfl, (Dict.keys_insert ..).trans (if_pos hkey), rfl⟩
  · exact .refl g

theorem sameFrame_setMethods (hid : g.Classified id) (ms : List Method) :
    SameFrame g (g.setMethods id ms) := by
  have hkey := (Dict.contains_iff_mem_keys _ _).1 hid.2
  unfold setMethods
  split
  · exact ⟨rfl, rfl, rfl, rfl, rfl, rfl, (Dict.keys_insert ..).trans (if_pos hkey)⟩
  · exact .refl g

theorem sameFrame_bindAll (g : Graph) (rs : List ClassRecord) : SameFrame g (g.bindAll rs) := by
  obtain ⟨ids, heq⟩ := g.bindAll_eq rs
  rw [heq]
  exact ⟨rfl, rfl, rfl, rfl, rfl, rfl, rfl⟩

end Graph

namespace SyncEngine

variable {s : RecordStore} {p head : String} {g : Graph} {t : Staged} {a : StoreAccess}

theorem sameFrame_stageUpdated (s : RecordStore) (head : String) {old : ClassRecord}
    (hid : g.Classified old.identifier) :
    Graph.SameFrame g (stageUpdated s head g old).1 := by
  have hbound := g.sameFrame_bindClassId old.identifier old.id
  have hinfo := Graph.sameFrame_setNodeInfo (hbound.classified hid)
    ⟨(g.bindClassId old.identifier old.id).kind old.identifier, old.description⟩
  unfold stageUpdated
  dsimp only
  refine (hbound.trans hinfo).trans ?_
  split
  · exact Graph.sameFrame_setMethods (hinfo.classified (hbound.classified hid)) _
  · exact .refl _

theorem sameFrame_stageAllUpdated (s : RecordStore) (head : String) {olds : List ClassRecord}
    (hids : ∀ old ∈ olds, g.Classified old.identifier) :
    Graph.SameFrame g (stageAllUpdated s head g olds).1 := by
  rw [stageAllUpdated_fst]
  induction olds generalizing g with
  | nil => exact .refl g
  | cons old rest ih =>
    have hstep := sameFrame_stageUpdated s head (hids old (List.mem_cons_self ..))
    exact hstep.trans (ih fun x hx => hstep.classified (hids x (List.mem_cons_of_mem _ hx)))

theorem restoreUnchanged_of_nil {d : Draft} (h : d.plan.unchanged = []) :
    restoreUnchanged s d = d.graph := by
  unfold restoreUnchanged
  rw [h]
  rfl

/-- Where nothing is unchanged, a node is updated from the record that is found for it, or it is
added and none is found. -/
theorem Staged.Fits.renewed_cases (ht : t.Fits a p head) (hnone : t.draft.plan.unchanged = [])
    {id : String} (hid : t.draft.graph.contains id = true) :
    (∃ r, (recordsByIdentifier a.store p).get? id = some r ∧ r.identifier = id ∧
        Graph.UpdatedFrom a.store r t.draft.graph t.graph) ∨
      ((recordsByIdentifier a.store p).get? id = none ∧
        Graph.AddedAt id t.draft.graph t.graph) := by
  have hd := ht.draft
  rw [← hd.records]
  cases hget : t.draft.records.get? id with
  | some r =>
    obtain ⟨hfound, hidentifier⟩ := hd.finds_of_get? hget
    have hkey := (Dict.contains_iff_mem_keys _ _).1 (Dict.contains_of_get?_eq_some hget)
    have hupdated : r.identifier ∈ t.draft.plan.updated := by
      rw [hidentifier]
      refine ((hd.plan.kept id).2 ⟨hid, hkey⟩).resolve_right fun hmem => ?_
      rw [hnone] at hmem
      cases hmem
    exact Or.inl ⟨r, rfl, hidentifier, ht.labelledFrom.updated r hfound hupdated⟩
  | none =>
    have hkey : id ∉ t.draft.records.keys := fun hmem => by
      obtain ⟨r, hr⟩ := Dict.exists_get?_of_contains ((Dict.contains_iff_mem_keys _ _).2 hmem)
      rw [hget] at hr
      cases hr
    exact Or.inr ⟨rfl, ht.labelledFrom.added id ((hd.plan.added id).2 ⟨hid, hkey⟩)⟩

section Renewed

variable (ht : t.Fits a p head) (hnone : t.draft.plan.unchanged = [])
  (hclassified : ∀ id, t.draft.graph.contains id = true → t.draft.graph.Classified id)
include ht hnone hclassified

theorem Staged.Fits.sameFrame : Graph.SameFrame t.draft.graph t.graph := by
  rw [ht.graph]
  unfold retie
  rw [restoreUnchanged_of_nil hnone]
  refine (sameFrame_stageAllUpdated a.store head fun old hold => ?_).trans
    (Graph.sameFrame_bindAll _ _)
  exact hclassified _
    ((ht.draft.plan.kept _).1 (Or.inl ((mem_updatedRecords ht.draft).1 hold).2)).1

/-- A node has the examined kind and the stored description, and the examined methods with the
stored texts. -/
theorem Staged.Fits.renewed_at {id : String} (hid : t.draft.graph.contains id = true) :
    t.graph.nodeInfo? id =
        some ⟨t.draft.graph.kind id, a.store.storedDescription? p id⟩ ∧
      t.graph.methodsOf id =
        (t.draft.graph.methodsOf id).map (Graph.withStoredTexts (a.store.storedTexts p id)) := by
  have hplain := ht.draft.bare.texts id
  unfold storedDescription? storedTexts
  rcases ht.renewed_cases hnone hid with ⟨r, hr, rfl, hupdated⟩ | ⟨hr, hadded⟩
  · rw [hr, hupdated.info, hupdated.methods, Graph.carryTexts_of_plain _ hplain]
    exact ⟨rfl, rfl⟩
  · rw [hr]
    obtain ⟨i, hi⟩ := Dict.exists_get?_of_contains
      ((ht.sameFrame hnone hclassified).classified (hclassified id hid)).1
    have hinfo : t.graph.nodeInfo? id = some i := hi
    refine ⟨?_, ?_⟩
    · rw [hinfo, ← hadded.kind, Graph.kind_of_nodeInfo? hinfo]
      have hdescription := hadded.description.trans (ht.draft.bare.descriptions id)
      rw [Graph.description?_of_nodeInfo? hinfo] at hdescription
      exact congrArg (fun d => some (⟨i.kind, d⟩ : NodeInfo)) hdescription
    · rw [hadded.methods]
      refine (List.map_id _).symm.trans (List.map_congr_left fun m hm => ?_)
      obtain ⟨hdescription, hlogic⟩ := hplain m hm
      obtain ⟨name, description, businessLogic, _⟩ := m
      obtain rfl : description = none := hdescription
      obtain rfl : businessLogic = [] := hlogic
      rfl

/-- The staged graph of a sync that left nothing unchanged is the examined one, renewed. -/
theorem Staged.Fits.renewedFrom : t.draft.graph.RenewedFrom a.store p t.graph := by
  have hwf := ht.draft.bare.wellFormed.labels
  have hframe := ht.sameFrame hnone hclassified
  refine ⟨hframe.nodes, hframe.outgoing, hframe.incoming, hframe.entryPoints, hframe.links,
    Dict.ext_of_keys (hframe.info ▸ hwf.info.nodup) (by simp [hframe.info]) fun id => ?_,
    Dict.ext_of_keys (hframe.methods ▸ hwf.methods.nodup) (by simp [hframe.methods])
      fun id => ?_⟩
  · rw [Dict.get?_mapValues]
    cases hi : t.draft.graph.info.get? id with
    | none => exact Dict.get?_eq_none_of_keys hframe.info hi
    | some i =>
      have hid := hwf.info.contained id (Dict.contains_of_get?_eq_some hi)
      refine (ht.renewed_at hnone hclassified hid).1.trans ?_
      rw [Graph.kind_of_nodeInfo? (show t.draft.graph.nodeInfo? id = some i from hi)]
      rfl
  · rw [Dict.get?_mapValues]
    cases hms : t.draft.graph.methods.get? id with
    | none => exact Dict.get?_eq_none_of_keys hframe.methods hms
    | some ms =>
      have hid := hwf.methods.contained id (Dict.contains_of_get?_eq_some hms)
      obtain ⟨ms', hms'⟩ :=
        Dict.exists_get?_of_contains (hframe.classified (hclassified id hid)).2
      have hmethods := (ht.renewed_at hnone hclassified hid).2
      unfold Graph.methodsOf at hmethods
      rw [Dict.getD_of_get?_eq_some _ hms, Dict.getD_of_get?_eq_some _ hms'] at hmethods
      rw [hms', hmethods]
      rfl

end Renewed

end SyncEngine

end CodeAtlas
