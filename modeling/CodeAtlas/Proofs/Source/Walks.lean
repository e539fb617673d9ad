import CodeAtlas.Proofs.Source.Addresses
import CodeAtlas.Proofs.Source.Imported

/-!
# Walks through syntax trees

Trees are walked with a stack of the subtrees that are still to be visited, and a walk through a
script module passes over anonymous nodes with all that is below them. This file says by recursion
on the tree what is visited, and proves that the stack of a walk always holds what the recursion has
still to list. So the nodes that are visited are told without a walk, by their addresses, and what
a module's analysis finds is what they give, one after the other.
-/

namespace CodeAtlas

namespace SyntaxTree

/-- A stack holds the forest that is not visited yet, in document order. -/
theorem visitStack_eq (stack : List SyntaxTree) : visitStack stack = forestPreorder stack := by
  rw [forestPreorder_eq]
  induction stack using visitStack.induct with
  | case1 => rw [visitStack, List.flatMap_nil]
  | case2 t rest ih =>
    rw [visitStack, ih, List.flatMap_append, List.flatMap_cons, preorder_eq t, List.cons_append]

theorem descendants_eq (t : SyntaxTree) (types : List String) :
    t.descendants types = (forestPreorder t.children).filter (·.isOneOf types) := by
  rw [descendants, visitStack_eq]

/-- The descendants are listed in document order, by their types and by nothing else. -/
theorem inDocumentOrder_descendants (t : SyntaxTree) (types : List String) :
    InDocumentOrder t.subtree?
      (fun a => a ≠ [] ∧ ∃ d, t.subtree? a = some d ∧ d.type ∈ types) (t.descendants types) := by
  rw [descendants_eq]
  have hbelow := inDocumentOrder_below fun c (_ : c ∈ t.children) => inDocumentOrder_preorder c
  refine (hbelow.filter (·.isOneOf types)).congr fun a => ?_
  simp only [isOneOf, List.contains_iff_mem]
  constructor
  · rintro ⟨⟨hne, -⟩, hd⟩
    exact ⟨hne, hd⟩
  · rintro ⟨hne, d, hd, htype⟩
    exact ⟨⟨hne, by rw [hd]; rfl⟩, d, hd, htype⟩

mutual

/-- The visits to a named node and to all nodes that are reached from it through named nodes only,
by recursion on the tree. The node's parent and the named siblings in front of it are given. -/
def visits (parent : Option SyntaxTree) (elders : List SyntaxTree) :
    SyntaxTree → List NodeVisit
  | t@(node _ named _ _ _ cs) =>
    if named then ⟨t, parent, elders⟩ :: forestVisits t [] cs else []

/-- The visits to siblings and below them, one sibling after the other. -/
def forestVisits (parent : SyntaxTree) (elders : List SyntaxTree) :
    List SyntaxTree → List NodeVisit
  | [] => []
  | c :: cs => visits (some parent) elders c ++
      forestVisits parent (if c.named then c :: elders else elders) cs

end

/-- Whether there is a node at an address, and it and all nodes above it are named. -/
def NamedAlong (t : SyntaxTree) (a : Address) : Prop :=
  ∀ above, above <+: a → ∃ n, t.subtree? above = some n ∧ n.named = true

theorem NamedAlong.named {t : SyntaxTree} {a : Address} (h : t.NamedAlong a) : t.named = true := by
  obtain ⟨n, hn, hnamed⟩ := h [] List.nil_prefix
  obtain rfl := Option.some.inj hn
  exact hnamed

theorem namedAlong_nil {t : SyntaxTree} : t.NamedAlong [] ↔ t.named = true := by
  refine ⟨NamedAlong.named, fun h above habove => ?_⟩
  obtain rfl := List.prefix_nil.1 habove
  exact ⟨t, rfl, h⟩

theorem namedAlong_cons {t : SyntaxTree} {i : Nat} {a : Address} :
    t.NamedAlong (i :: a) ↔
      t.named = true ∧ ∃ c, t.children[i]? = some c ∧ c.NamedAlong a := by
  constructor
  · intro h
    refine ⟨h.named, ?_⟩
    obtain ⟨n, hn, -⟩ := h [i] ⟨a, rfl⟩
    obtain ⟨c, hc⟩ := Option.isSome_iff_exists.1
      (Option.isSome_of_isSome_bind (Option.isSome_iff_exists.2 ⟨n, hn⟩))
    refine ⟨c, hc, fun above habove => ?_⟩
    have hbelow := h (i :: above) (List.cons_prefix_cons.2 ⟨rfl, habove⟩)
    rwa [subtree?, hc, Option.bind_some] at hbelow
  · rintro ⟨ht, c, hc, h⟩ above habove
    rcases List.prefix_cons_iff.1 habove with rfl | ⟨rest, rfl, hrest⟩
    · exact ⟨t, rfl, ht⟩
    · rw [subtree?, hc, Option.bind_some]
      exact h rest hrest

end SyntaxTree

namespace NodeVisit

open SyntaxTree

/-- The visits that begin with a visit and go on below its node. -/
def within (v : NodeVisit) : List NodeVisit := v.node.visits v.parent v.elders

theorem forestVisits_eq (parent : SyntaxTree) (elders cs : List SyntaxTree) :
    forestVisits parent elders cs = (ofSiblings parent elders cs).flatMap within := by
  induction cs generalizing elders with
  | nil => rfl
  | cons c cs ih => rw [forestVisits, ofSiblings, List.flatMap_cons, ih]; rfl

theorem within_eq (v : NodeVisit) :
    v.within = if v.node.named then v :: v.below.flatMap within else [] := by
  obtain ⟨⟨type, named, field, start, stop, cs⟩, parent, elders⟩ := v
  rw [within, visits, forestVisits_eq]
  rfl

/-- A stack holds the visits that are still to be made, in document order. -/
theorem walk_eq (stack : List NodeVisit) : walk stack = stack.flatMap within := by
  induction stack using walk.induct with
  | case1 => rw [walk, List.flatMap_nil]
  | case2 v rest hnamed ih =>
    rw [walk, if_pos hnamed, ih, List.flatMap_append, List.flatMap_cons, within_eq v, if_pos hnamed,
      List.cons_append]
  | case3 v rest hanonymous ih =>
    rw [walk, if_neg hanonymous, ih, List.flatMap_cons, within_eq v, if_neg hanonymous,
      List.nil_append]

theorem walk_root (t : SyntaxTree) : walk [⟨t, none, []⟩] = t.visits none [] := by
  rw [walk_eq, List.flatMap_singleton, within]

/-- The visit to a child of the node: the child has the node as its parent and the named children in
front of it as its elders. -/
def child? (v : NodeVisit) (i : Nat) : Option NodeVisit :=
  (v.node.children[i]?).map fun c =>
    ⟨c, some v.node, ((v.node.children.take i).filter (·.named)).reverse⟩

/-- The visit to the node at an address below. -/
def at? (v : NodeVisit) : Address → Option NodeVisit
  | [] => some v
  | i :: a => (v.child? i).bind (·.at? a)

theorem getElem?_ofSiblings (parent : SyntaxTree) (elders cs : List SyntaxTree) (i : Nat) :
    (ofSiblings parent elders cs)[i]? = (cs[i]?).map fun c =>
      ⟨c, some parent, ((cs.take i).filter (·.named)).reverse ++ elders⟩ := by
  induction cs generalizing elders i with
  | nil => rfl
  | cons c cs ih =>
    cases i with
    | zero => rfl
    | succ i =>
      rw [ofSiblings, List.getElem?_cons_succ, List.getElem?_cons_succ, ih, List.take_succ_cons,
        List.filter_cons]
      cases c.named <;> simp

theorem getElem?_below (v : NodeVisit) (i : Nat) : v.below[i]? = v.child? i := by
  rw [below, getElem?_ofSiblings]
  simp only [List.append_nil]
  rfl

/-- The nodes of the visits are those at the same addresses. -/
theorem map_node_at? (v : NodeVisit) (a : Address) :
    (v.at? a).map (·.node) = v.node.subtree? a := by
  induction a generalizing v with
  | nil => rfl
  | cons i a ih =>
    unfold at? subtree? child?
    cases v.node.children[i]? with
    | none => rfl
    | some c => exact ih _

theorem getElem?_children {v : NodeVisit} {i : Nat} {c : SyntaxTree} :
    v.node.children[i]? = some c ↔ ∃ u, v.below[i]? = some u ∧ u.node = c := by
  have hmap : v.below.map (·.node) = v.node.children := map_node_ofSiblings v.node [] _
  rw [← hmap, List.getElem?_map, Option.map_eq_some_iff]

/-- What is true of a visit whenever it is true of the visits right below is true of all visits. -/
theorem induction_below {motive : NodeVisit → Prop}
    (h : ∀ v, (∀ u ∈ v.below, motive u) → motive v) (v : NodeVisit) : motive v := by
  obtain ⟨t, parent, elders⟩ := v
  induction t using induction_children generalizing parent elders with
  | h t ih =>
    refine h ⟨t, parent, elders⟩ fun u hu => ?_
    obtain ⟨i, hi⟩ := List.mem_iff_getElem?.1 hu
    exact ih u.node (List.mem_of_getElem? (getElem?_children.2 ⟨u, hi, rfl⟩)) u.parent u.elders

/-- The visits below a named node are in document order if those to and below its children are. -/
theorem inDocumentOrder_below {v : NodeVisit} (hnamed : v.node.named = true)
    (h : ∀ u ∈ v.below, InDocumentOrder u.at? u.node.NamedAlong u.within) :
    InDocumentOrder v.at? (fun a => a ≠ [] ∧ v.node.NamedAlong a) (v.below.flatMap within) := by
  have hchild (i : Nat) (u : NodeVisit) (hu : v.below[i]? = some u) (a : Address) :
      v.at? ((0 + i) :: a) = u.at? a := by
    rw [Nat.zero_add, at?, ← getElem?_below, hu, Option.bind_some]
  refine (InDocumentOrder.siblings h hchild).congr fun a => ?_
  constructor
  · rintro ⟨i, u, b, rfl, hu, hb⟩
    rw [Nat.zero_add]
    exact ⟨List.cons_ne_nil _ _,
      namedAlong_cons.2 ⟨hnamed, u.node, getElem?_children.2 ⟨u, hu, rfl⟩, hb⟩⟩
  · rintro ⟨hne, ha⟩
    cases a with
    | nil => exact absurd rfl hne
    | cons i b =>
      obtain ⟨-, c, hc, hb⟩ := namedAlong_cons.1 ha
      obtain ⟨u, hu, rfl⟩ := getElem?_children.1 hc
      exact ⟨i, u, b, by rw [Nat.zero_add], hu, hb⟩

/-- The visits that begin with a visit go to the named nodes below named nodes, each once and in
document order. -/
theorem inDocumentOrder_within (v : NodeVisit) :
    InDocumentOrder v.at? v.node.NamedAlong v.within := by
  induction v using induction_below with
  | h v ih =>
    rw [within_eq]
    by_cases hnamed : v.node.named = true
    · rw [if_pos hnamed]
      exact .root rfl (namedAlong_nil.2 hnamed) (inDocumentOrder_below hnamed ih)
    · rw [if_neg hnamed]
      exact ⟨[], .nil, fun a => iff_of_false List.not_mem_nil fun ha => hnamed ha.named, rfl⟩

end NodeVisit

namespace TypeScript

theorem methods_addVariable (f : SourceFile) (s : Setting) (a : ModuleAnalysis) (t : SyntaxTree) :
    (addVariable f s a t).methods = a.methods ++ (addVariable f s .empty t).methods := by
  have hnone : a.methods = a.methods ++ ModuleAnalysis.empty.methods := (List.append_nil _).symm
  -- a function, and a function that a call wraps, are added at the end; nothing else is a method
  unfold addVariable
  split
  · dsimp only
    split
    · exact hnone
    split
    · rfl
    split
    · exact hnone
    split
    · exact hnone
    split
    · exact hnone
    split
    · rfl
    · exact hnone
  · exact hnone

/-- A visit adds the methods that it finds by itself, whatever was found before. -/
theorem methods_visit (f : SourceFile) (s : Setting) (a : ModuleAnalysis) (v : NodeVisit) :
    (visit f s a v).methods = a.methods ++ (visit f s .empty v).methods := by
  have hnone : a.methods = a.methods ++ ModuleAnalysis.empty.methods := (List.append_nil _).symm
  unfold visit
  dsimp only
  split
  · exact hnone
  split
  · rw [(foldl_applyClassDecorator_keeps f _ _).1, (foldl_applyClassDecorator_keeps f _ _).1]
    exact hnone
  split
  · cases memberMethod? f v
    · exact hnone
    · rfl
  split
  · split
    · exact hnone
    · rfl
  split
  · exact methods_addVariable f s a v.node
  split
  · cases propertyMethod? f v.node
    · exact hnone
    · rfl
  split <;> exact hnone

/-- The analysis of a module is what the visits of the recursion on its tree make it, in their
order. -/
theorem analyze_eq (f : SourceFile) (path framework : String) :
    analyze f path framework = complete path
      ((f.tree.visits none []).foldl (visit f (.ofFramework path framework)) .empty) := by
  rw [analyze, NodeVisit.walk_root]

/-- The methods of a module are those that a visit to each node finds, one after the other. -/
theorem methods_analyze (f : SourceFile) (path framework : String) :
    (analyze f path framework).methods = (f.tree.visits none []).flatMap fun v =>
      (visit f (.ofFramework path framework) .empty v).methods := by
  rw [analyze_eq, List.flatMap_eq_foldl]
  exact (List.foldl_hom ModuleAnalysis.methods fun a v => (methods_visit f _ a v).symm).symm

end TypeScript

section

open TypeScript

/-- Walks visit what recursion on the tree lists. The descendants of some types are the nodes of
these types at the addresses below the root, each once and in document order. The analysis of
a module visits the nodes that are named and below named nodes only, each once, in document order
and in its place. The methods and imports of the module are what a visit to each of them finds by
itself, one after the other. -/
theorem walks_in_document_order :
    (∀ (t : SyntaxTree) (types : List String),
      t.descendants types = (SyntaxTree.forestPreorder t.children).filter (·.isOneOf types) ∧
      ∀ ds, t.descendants types = ds ↔ InDocumentOrder t.subtree?
        (fun a => a ≠ [] ∧ ∃ d, t.subtree? a = some d ∧ d.type ∈ types) ds) ∧
    ∀ (f : SourceFile) (path framework : String),
      let s := Setting.ofFramework path framework
      let root : NodeVisit := ⟨f.tree, none, []⟩
      let visited := f.tree.visits none []
      NodeVisit.walk [root] = visited ∧
      analyze f path framework = complete path (visited.foldl (visit f s) .empty) ∧
      (∀ vs, visited = vs ↔ InDocumentOrder root.at? f.tree.NamedAlong vs) ∧
      (∀ a, (root.at? a).map (·.node) = f.tree.subtree? a) ∧
      (analyze f path framework).methods =
        (visited.flatMap fun v => (visit f s .empty v).methods) ∧
      (analyze f path framework).imports =
        visited.flatMap fun v => (visit f s .empty v).imports := by
  refine ⟨fun t types => ⟨t.descendants_eq types, fun ds => ?_⟩, fun f path framework => ?_⟩
  · have hlisted := t.inDocumentOrder_descendants types
    exact ⟨fun h => h ▸ hlisted, hlisted.unique⟩
  · dsimp only
    have hvisited := NodeVisit.inDocumentOrder_within ⟨f.tree, none, []⟩
    refine ⟨NodeVisit.walk_root f.tree, analyze_eq f path framework,
      fun vs => ⟨fun h => h ▸ hvisited, hvisited.unique⟩, NodeVisit.map_node_at? _,
      methods_analyze f path framework, ?_⟩
    rw [imports_analyze, NodeVisit.walk_root]
    exact List.flatMap_congr fun v _ => (imports_visit f _ .empty v).symm

end

/-- Equal siblings are visited one after the other, and what is below an anonymous node is not
visited. -/
example :
    let pair : SyntaxTree := .node "pair" true "" 0 1 []
    let object : SyntaxTree := .node "object" true "" 0 1
      [pair, .node "(" false "" 0 1 [pair], pair]
    (NodeVisit.walk [⟨object, none, []⟩]).map (·.node.type) = ["object", "pair", "pair"] := by
  decide +kernel

end CodeAtlas
