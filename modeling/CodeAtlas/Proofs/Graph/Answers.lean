import CodeAtlas.Graph.Basic

/-!
# What operations do to the answers of a graph

A new node, a new edge and a new mark change the lists that they enter. Each operation that labels
a node changes one answer about that node. This file says which one and how, and that everything
else about the graph stays as it is.
-/

namespace CodeAtlas.Graph

variable {ι τ ν η π : Type} [DecidableEq ι] (g : Graph ι τ ν η π) (id : ι)

/-! ## Untouched parts -/

section Untouched

variable (a b target : ι) (c name : τ) (file : ν) (i : NodeInfo ν) (ms : List (Method ν η)) (n : π)

/-- One more node changes the nodes only. -/
theorem exists_addNode_eq : ∃ nodes, g.addNode id file = { g with nodes := nodes } := by
  unfold addNode
  split
  · exact ⟨g.nodes, rfl⟩
  · exact ⟨_, rfl⟩

@[simp] theorem classIds_addNode : (g.addNode id file).classIds = g.classIds := by
  obtain ⟨nodes, h⟩ := g.exists_addNode_eq id file
  rw [h]

@[simp] theorem info_addNode : (g.addNode id file).info = g.info := by
  obtain ⟨nodes, h⟩ := g.exists_addNode_eq id file
  rw [h]

@[simp] theorem methods_addNode : (g.addNode id file).methods = g.methods := by
  obtain ⟨nodes, h⟩ := g.exists_addNode_eq id file
  rw [h]

@[simp] theorem links_addNode : (g.addNode id file).links = g.links := by
  obtain ⟨nodes, h⟩ := g.exists_addNode_eq id file
  rw [h]

section Edges

variable [SelfEqual ι]

/-- One more edge changes the two lists of edges only. -/
theorem exists_addDependency_eq : ∃ outgoing incoming, g.addDependency a b =
    { g with outgoing := outgoing, incoming := incoming } := by
  unfold addDependency
  split
  · exact ⟨g.outgoing, g.incoming, rfl⟩
  · exact ⟨_, _, rfl⟩

@[simp] theorem nodes_addDependency : (g.addDependency a b).nodes = g.nodes := by
  obtain ⟨outgoing, incoming, h⟩ := g.exists_addDependency_eq a b
  rw [h]

@[simp] theorem entryPoints_addDependency :
    (g.addDependency a b).entryPoints = g.entryPoints := by
  obtain ⟨outgoing, incoming, h⟩ := g.exists_addDependency_eq a b
  rw [h]

@[simp] theorem classIds_addDependency : (g.addDependency a b).classIds = g.classIds := by
  obtain ⟨outgoing, incoming, h⟩ := g.exists_addDependency_eq a b
  rw [h]

@[simp] theorem info_addDependency : (g.addDependency a b).info = g.info := by
  obtain ⟨outgoing, incoming, h⟩ := g.exists_addDependency_eq a b
  rw [h]

@[simp] theorem methods_addDependency : (g.addDependency a b).methods = g.methods := by
  obtain ⟨outgoing, incoming, h⟩ := g.exists_addDependency_eq a b
  rw [h]

@[simp] theorem links_addDependency : (g.addDependency a b).links = g.links := by
  obtain ⟨outgoing, incoming, h⟩ := g.exists_addDependency_eq a b
  rw [h]

end Edges

/-- A mark changes the list of entry points only. -/
theorem exists_markEntryPoint_eq :
    ∃ entryPoints, g.markEntryPoint id = { g with entryPoints := entryPoints } := by
  unfold markEntryPoint
  split
  · exact ⟨_, rfl⟩
  · exact ⟨g.entryPoints, rfl⟩

@[simp] theorem nodes_markEntryPoint : (g.markEntryPoint id).nodes = g.nodes := by
  obtain ⟨entryPoints, h⟩ := g.exists_markEntryPoint_eq id
  rw [h]

@[simp] theorem outgoing_markEntryPoint : (g.markEntryPoint id).outgoing = g.outgoing := by
  obtain ⟨entryPoints, h⟩ := g.exists_markEntryPoint_eq id
  rw [h]

@[simp] theorem incoming_markEntryPoint : (g.markEntryPoint id).incoming = g.incoming := by
  obtain ⟨entryPoints, h⟩ := g.exists_markEntryPoint_eq id
  rw [h]

@[simp] theorem classIds_markEntryPoint : (g.markEntryPoint id).classIds = g.classIds := by
  obtain ⟨entryPoints, h⟩ := g.exists_markEntryPoint_eq id
  rw [h]

@[simp] theorem info_markEntryPoint : (g.markEntryPoint id).info = g.info := by
  obtain ⟨entryPoints, h⟩ := g.exists_markEntryPoint_eq id
  rw [h]

@[simp] theorem methods_markEntryPoint : (g.markEntryPoint id).methods = g.methods := by
  obtain ⟨entryPoints, h⟩ := g.exists_markEntryPoint_eq id
  rw [h]

@[simp] theorem links_markEntryPoint : (g.markEntryPoint id).links = g.links := by
  obtain ⟨entryPoints, h⟩ := g.exists_markEntryPoint_eq id
  rw [h]

@[simp] theorem nodes_bindClassId : (g.bindClassId id c).nodes = g.nodes := by
  unfold bindClassId
  split <;> rfl

@[simp] theorem info_bindClassId : (g.bindClassId id c).info = g.info := by
  unfold bindClassId
  split <;> rfl

@[simp] theorem methods_bindClassId : (g.bindClassId id c).methods = g.methods := by
  unfold bindClassId
  split <;> rfl

@[simp] theorem links_bindClassId : (g.bindClassId id c).links = g.links := by
  unfold bindClassId
  split <;> rfl

@[simp] theorem nodes_setNodeInfo : (g.setNodeInfo id i).nodes = g.nodes := by
  unfold setNodeInfo
  split <;> rfl

@[simp] theorem classIds_setNodeInfo : (g.setNodeInfo id i).classIds = g.classIds := by
  unfold setNodeInfo
  split <;> rfl

@[simp] theorem methods_setNodeInfo : (g.setNodeInfo id i).methods = g.methods := by
  unfold setNodeInfo
  split <;> rfl

@[simp] theorem links_setNodeInfo : (g.setNodeInfo id i).links = g.links := by
  unfold setNodeInfo
  split <;> rfl

@[simp] theorem nodes_setMethods : (g.setMethods id ms).nodes = g.nodes := by
  unfold setMethods
  split <;> rfl

@[simp] theorem classIds_setMethods : (g.setMethods id ms).classIds = g.classIds := by
  unfold setMethods
  split <;> rfl

@[simp] theorem info_setMethods : (g.setMethods id ms).info = g.info := by
  unfold setMethods
  split <;> rfl

@[simp] theorem links_setMethods : (g.setMethods id ms).links = g.links := by
  unfold setMethods
  split <;> rfl

section Links

variable [DecidableEq τ] [DecidableEq π]

@[simp] theorem nodes_addMethodParameter :
    (g.addMethodParameter id name n target).nodes = g.nodes := by
  unfold addMethodParameter
  split <;> rfl

@[simp] theorem classIds_addMethodParameter :
    (g.addMethodParameter id name n target).classIds = g.classIds := by
  unfold addMethodParameter
  split <;> rfl

@[simp] theorem info_addMethodParameter :
    (g.addMethodParameter id name n target).info = g.info := by
  unfold addMethodParameter
  split <;> rfl

@[simp] theorem methods_addMethodParameter :
    (g.addMethodParameter id name n target).methods = g.methods := by
  unfold addMethodParameter
  split <;> rfl

end Links

@[simp] theorem nodes_clearMethodParameters : (g.clearMethodParameters id).nodes = g.nodes := rfl

@[simp] theorem classIds_clearMethodParameters :
    (g.clearMethodParameters id).classIds = g.classIds := rfl

@[simp] theorem info_clearMethodParameters : (g.clearMethodParameters id).info = g.info := rfl

@[simp] theorem methods_clearMethodParameters :
    (g.clearMethodParameters id).methods = g.methods := rfl

end Untouched

/-! ## Changed answers -/

theorem contains_congr {g h : Graph ι τ ν η π} (hnodes : h.nodes = g.nodes) (id : ι) :
    h.contains id = g.contains id := by
  unfold contains
  rw [hnodes]

theorem sourceFile?_congr {g h : Graph ι τ ν η π} (hnodes : h.nodes = g.nodes) (id : ι) :
    h.sourceFile? id = g.sourceFile? id := by
  unfold sourceFile?
  rw [hnodes]

theorem classId?_congr {g h : Graph ι τ ν η π} (hids : h.classIds = g.classIds) (id : ι) :
    h.classId? id = g.classId? id := by
  unfold classId?
  rw [hids]

theorem nodeInfo?_congr {g h : Graph ι τ ν η π} (hinfo : h.info = g.info) (id : ι) :
    h.nodeInfo? id = g.nodeInfo? id := by
  unfold nodeInfo?
  rw [hinfo]

theorem kind_congr {g h : Graph ι τ ν η π} {id : ι} (hinfo : h.nodeInfo? id = g.nodeInfo? id) :
    h.kind id = g.kind id := by
  unfold kind
  rw [hinfo]

theorem description?_congr {g h : Graph ι τ ν η π} {id : ι}
    (hinfo : h.nodeInfo? id = g.nodeInfo? id) : h.description? id = g.description? id := by
  unfold description?
  rw [hinfo]

theorem kind_of_nodeInfo? {g : Graph ι τ ν η π} {id : ι} {i : NodeInfo ν}
    (hinfo : g.nodeInfo? id = some i) : g.kind id = i.kind := by
  unfold kind
  rw [hinfo]

theorem description?_of_nodeInfo? {g : Graph ι τ ν η π} {id : ι} {i : NodeInfo ν}
    (hinfo : g.nodeInfo? id = some i) : g.description? id = i.description := by
  unfold description?
  rw [hinfo]
  rfl

theorem methodsOf_congr {g h : Graph ι τ ν η π} (hmethods : h.methods = g.methods) (id : ι) :
    h.methodsOf id = g.methodsOf id := by
  unfold methodsOf
  rw [hmethods]

theorem linksOf_congr {g h : Graph ι τ ν η π} (hlinks : h.links = g.links) (id : ι) :
    h.linksOf id = g.linksOf id := by
  unfold linksOf
  rw [hlinks]

theorem classId?_bindClassId (c : τ) (j : ι) :
    (g.bindClassId id c).classId? j =
      if j = id ∧ g.contains id = true then some c else g.classId? j := by
  unfold bindClassId
  by_cases hid : g.contains id = true
  · rw [if_pos hid]
    simp only [classId?, Dict.get?_insert, hid, and_true]
  · rw [if_neg hid, if_neg fun h => hid h.2]

theorem nodeInfo?_setNodeInfo (i : NodeInfo ν) (j : ι) :
    (g.setNodeInfo id i).nodeInfo? j =
      if j = id ∧ g.contains id = true then some i else g.nodeInfo? j := by
  unfold setNodeInfo
  by_cases hid : g.contains id = true
  · rw [if_pos hid]
    simp only [nodeInfo?, Dict.get?_insert, hid, and_true]
  · rw [if_neg hid, if_neg fun h => hid h.2]

theorem methodsOf_setMethods (ms : List (Method ν η)) (j : ι) :
    (g.setMethods id ms).methodsOf j =
      if j = id ∧ g.contains id = true then ms else g.methodsOf j := by
  unfold setMethods
  by_cases hid : g.contains id = true
  · rw [if_pos hid]
    simp only [methodsOf, Dict.getD_insert, hid, and_true]
  · rw [if_neg hid, if_neg fun h => hid h.2]

theorem linksOf_clearMethodParameters (j : ι) :
    (g.clearMethodParameters id).linksOf j = if j = id then .empty else g.linksOf j :=
  Dict.getD_erase _ _ _ _

theorem linksOf_addMethodParameter [DecidableEq τ] [DecidableEq π] (name : τ) (n : π)
    (target j : ι) :
    (g.addMethodParameter id name n target).linksOf j =
      if j = id ∧ g.contains id = true ∧ g.contains target = true then
        (g.linksOf id).insert name (appendNew ((g.linksOf id).getD name []) ⟨name, n, target⟩)
      else g.linksOf j := by
  unfold addMethodParameter
  by_cases hid : g.contains id = true ∧ g.contains target = true
  · rw [if_neg (by simp [hid.1, hid.2])]
    simp only [linksOf, Dict.getD_insert, hid, and_self, and_true]
  · have hskip : (!g.contains id || !g.contains target) = true := by
      by_cases h : g.contains id = true
      · have htarget : ¬g.contains target = true := fun ht => hid ⟨h, ht⟩
        simp [htarget]
      · simp [h]
    rw [if_pos hskip, if_neg fun h => hid h.2]

end CodeAtlas.Graph
