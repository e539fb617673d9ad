import CodeAtlas.Proofs.Graph.Relabel
import CodeAtlas.Proofs.Run.Extraction

/-!
# Described nodes

An extraction that succeeds gives a node its kind and its methods, and touches no other node.
This file says what is known about the nodes of a graph after a number of extractions.
-/

namespace CodeAtlas

namespace Graph

variable {g : Graph} {id j : String}

theorem addMethodParameters_keeps (g : Graph) (id name : String) (targets : List String) :
    (g.addMethodParameters id name targets).info = g.info ∧
      (g.addMethodParameters id name targets).methods = g.methods ∧
      ∀ j, j ≠ id → SameAt j g (g.addMethodParameters id name targets) := by
  unfold addMethodParameters
  induction targets.zipIdx generalizing g with
  | nil => exact ⟨rfl, rfl, fun j _ => .refl j g⟩
  | cons t rest ih =>
    obtain ⟨hinfo, hmethods, hothers⟩ := ih (g.addMethodParameter id name t.2 t.1)
    refine ⟨hinfo.trans (info_addMethodParameter ..),
      hmethods.trans (methods_addMethodParameter ..), fun j hj => ?_⟩
    exact (SameAt.addMethodParameter hj name t.2 t.1).trans (hothers j hj)

/-- What describing a node comes to, except for its links. -/
theorem describeNode_keeps (g : Graph) (id : String) (facts : UnitFacts) :
    (g.describeNode id facts).info = (g.setNodeInfo id ⟨facts.kind, g.description? id⟩).info ∧
      (g.describeNode id facts).methods = (g.setMethods id facts.methods).methods ∧
      ∀ j, j ≠ id → SameAt j g (g.describeNode id facts) := by
  have hothers (j : String) (hj : j ≠ id) :
      SameAt j g (((g.setNodeInfo id ⟨facts.kind, g.description? id⟩).setMethods id
        facts.methods).clearMethodParameters id) := by
    refine (SameAt.setNodeInfo hj ⟨facts.kind, g.description? id⟩).trans ?_
    exact (SameAt.setMethods hj facts.methods).trans (.clearMethodParameters hj)
  have hinfo : (((g.setNodeInfo id ⟨facts.kind, g.description? id⟩).setMethods id
      facts.methods).clearMethodParameters id).info =
        (g.setNodeInfo id ⟨facts.kind, g.description? id⟩).info := by simp
  have hmethods :
      (((g.setNodeInfo id ⟨facts.kind, g.description? id⟩).setMethods id
        facts.methods).clearMethodParameters id).methods =
      (g.setMethods id facts.methods).methods := by
    unfold setMethods
    simp only [contains_congr (nodes_setNodeInfo ..), methods_clearMethodParameters]
    split
    · simp
    · simp
  unfold describeNode
  dsimp only
  generalize ((g.setNodeInfo id ⟨facts.kind, g.description? id⟩).setMethods id
    facts.methods).clearMethodParameters id = h at hothers hinfo hmethods ⊢
  rw [← hinfo, ← hmethods]
  clear hinfo hmethods
  induction facts.parameters.toList generalizing h with
  | nil => exact ⟨rfl, rfl, hothers⟩
  | cons p rest ih =>
    obtain ⟨hinfo, hmethods, hsame⟩ := addMethodParameters_keeps h id p.1 p.2
    obtain ⟨hinfo', hmethods', hothers'⟩ := ih (h.addMethodParameters id p.1 p.2)
      fun j hj => (hothers j hj).trans (hsame j hj)
    exact ⟨hinfo'.trans hinfo, hmethods'.trans hmethods, hothers'⟩

/-- A node whose kind and methods are known. -/
def Classified (g : Graph) (id : String) : Prop :=
  g.info.contains id = true ∧ g.methods.contains id = true

/-- Describing a node of the graph classifies it, and no node is forgotten. -/
theorem classified_describeNode (facts : UnitFacts)
    (h : g.Classified j ∨ j = id ∧ g.contains id = true) :
    (g.describeNode id facts).Classified j := by
  obtain ⟨hinfo, hmethods, -⟩ := g.describeNode_keeps id facts
  unfold Classified
  rw [hinfo, hmethods]
  unfold setNodeInfo setMethods
  by_cases hid : g.contains id = true
  · rw [if_pos hid, if_pos hid, Dict.contains_insert, Dict.contains_insert]
    rcases h with hold | ⟨hj, -⟩
    · exact ⟨Or.inr hold.1, Or.inr hold.2⟩
    · exact ⟨Or.inl hj, Or.inl hj⟩
  · rw [if_neg hid, if_neg hid]
    exact h.resolve_right fun hnode => hid hnode.2

/-- After extractions none of which failed their nodes are classified. -/
theorem classified_describedBy {xs : List Extraction} (hok : ∀ x ∈ xs, ¬x.Raised)
    (h : g.Classified id ∨ g.contains id = true ∧ ∃ x ∈ xs, x.unit.identifier = id) :
    (g.describedBy xs).Classified id := by
  induction xs generalizing g with
  | nil => exact h.resolve_right fun hnode => by simp at hnode
  | cons x rest ih =>
    have hrest : ∀ y ∈ rest, ¬y.Raised := fun y hy => hok y (List.mem_cons_of_mem _ hy)
    cases hout : x.outcome with
    | error f => exact absurd ⟨f, hout⟩ (hok x (List.mem_cons_self ..))
    | ok facts =>
      have hstep : x.describe g = g.describeNode x.unit.identifier facts := by
        unfold Extraction.describe
        rw [hout]
      unfold describedBy at ih ⊢
      rw [List.foldl_cons, hstep]
      refine ih hrest ?_
      rcases h with hold | ⟨hnode, y, hy, heq⟩
      · exact Or.inl (classified_describeNode facts (Or.inl hold))
      · rcases List.mem_cons.1 hy with rfl | hy
        · exact Or.inl (classified_describeNode facts (Or.inr ⟨heq.symm, heq ▸ hnode⟩))
        · refine Or.inr ⟨?_, y, hy, heq⟩
          rwa [contains_congr (nodes_describeNode ..)]

/-- Extractions of different units give each of the nodes what its own extraction found. -/
theorem describedBy_at {xs : List Extraction}
    (hnodup : (xs.map (·.unit.identifier)).Nodup) {x : Extraction} (hx : x ∈ xs)
    {facts : UnitFacts} (hfacts : x.outcome = .ok facts)
    (hnode : g.contains x.unit.identifier = true) :
    (g.describedBy xs).kind x.unit.identifier = facts.kind ∧
      (g.describedBy xs).methodsOf x.unit.identifier = facts.methods := by
  have hothers (g : Graph) (y : Extraction) (j : String) (hj : j ≠ y.unit.identifier) :
      SameAt j g (y.describe g) := by
    unfold Extraction.describe
    split
    · exact (g.describeNode_keeps _ _).2.2 j hj
    · exact .refl j g
  obtain ⟨h, hbefore, hafter⟩ :=
    (foldl_at (fun y : Extraction => y.unit.identifier) hothers hnodup g).1 x hx
  have hstep : x.describe h = h.describeNode x.unit.identifier facts := by
    unfold Extraction.describe
    rw [hfacts]
  rw [hstep] at hafter
  have hnode' : h.contains x.unit.identifier = true := by
    rwa [contains_congr hbefore.nodes]
  obtain ⟨hinfo, hmethods, -⟩ := h.describeNode_keeps x.unit.identifier facts
  constructor
  · rw [describedBy, kind_congr hafter.info, kind_congr (nodeInfo?_congr hinfo _)]
    exact kind_of_nodeInfo? ((nodeInfo?_setNodeInfo ..).trans (if_pos ⟨rfl, hnode'⟩))
  · rw [describedBy, hafter.methodsOf, methodsOf_congr hmethods, methodsOf_setMethods,
      if_pos ⟨rfl, hnode'⟩]

end Graph

end CodeAtlas
