import CodeAtlas.Source.SyntaxTree
import Mathlib.Data.List.Sort

/-!
# Nodes and their addresses

Equal subtrees may stand in several places of a tree. So a node is told by its address, which says
what child is taken at each step from the root down to the node. Compared number by number,
addresses are in document order: a node stands before all that lies below it, and all that before
its later siblings. This file says what it means that a list has the nodes of a sort, each once and
in document order, and proves it of all nodes of a tree as recursion on the tree lists them.
-/

namespace CodeAtlas

/-- What child is taken at each step from the root of a tree down to a node. -/
abbrev Address := List Nat

/-- Whether a list has what stands at the addresses of a sort: it has something for each of these
addresses and for no other one, in document order. -/
def InDocumentOrder {α : Type} (look : Address → Option α) (sort : Address → Prop)
    (xs : List α) : Prop :=
  ∃ addresses : List Address, addresses.Pairwise (· < ·) ∧ (∀ a, a ∈ addresses ↔ sort a) ∧
    addresses.map look = xs.map some

namespace InDocumentOrder

variable {α β : Type} {look : Address → Option α} {sort : Address → Prop} {xs ys : List α}

/-- Order and multiplicity leave nothing open: there is one such list. -/
theorem unique (hxs : InDocumentOrder look sort xs) (hys : InDocumentOrder look sort ys) :
    xs = ys := by
  obtain ⟨as, hascends, hmem, hlook⟩ := hxs
  obtain ⟨bs, hascends', hmem', hlook'⟩ := hys
  obtain rfl : as = bs :=
    hascends.eq_of_mem_iff hascends' fun a => (hmem a).trans (hmem' a).symm
  exact (Option.some_injective α).list_map (hlook.symm.trans hlook')

theorem congr {sort' : Address → Prop} (h : InDocumentOrder look sort xs)
    (hsort : ∀ a, sort a ↔ sort' a) : InDocumentOrder look sort' xs := by
  obtain ⟨as, hascends, hmem, hlook⟩ := h
  exact ⟨as, hascends, fun a => (hmem a).trans (hsort a), hlook⟩

/-- A root stands before all that lies below it. -/
theorem root {x : α} (hx : look [] = some x) (hroot : sort [])
    (hbelow : InDocumentOrder look (fun a => a ≠ [] ∧ sort a) xs) :
    InDocumentOrder look sort (x :: xs) := by
  obtain ⟨as, hascends, hmem, hlook⟩ := hbelow
  refine ⟨[] :: as, .cons (fun a ha => ?_) hascends, fun a => ?_, ?_⟩
  · cases a with
    | nil => exact absurd rfl ((hmem []).1 ha).1
    | cons i a => exact .nil
  · cases a with
    | nil => exact iff_of_true List.mem_cons_self hroot
    | cons i a => simp [hmem]
  · rw [List.map_cons, List.map_cons, hx, hlook]

/-- What lies in siblings is in document order one sibling after the other. The siblings are those
of a node from the child with the first number on. -/
theorem siblings {look : β → Address → Option α} {sort : β → Address → Prop} {list : β → List α}
    {whole : Address → Option α} {cs : List β} {first : Nat}
    (h : ∀ c ∈ cs, InDocumentOrder (look c) (sort c) (list c))
    (hwhole : ∀ i c, cs[i]? = some c → ∀ a, whole ((first + i) :: a) = look c a) :
    InDocumentOrder whole
      (fun a => ∃ i c b, a = (first + i) :: b ∧ cs[i]? = some c ∧ sort c b)
      (cs.flatMap list) := by
  induction cs generalizing first with
  | nil => exact ⟨[], .nil, fun a => by simp, rfl⟩
  | cons c cs ih =>
    obtain ⟨hc, hcs⟩ := List.forall_mem_cons.1 h
    obtain ⟨as, hascends, hmem, hlook⟩ := hc
    have hshift (i : Nat) : first + 1 + i = first + (i + 1) := by omega
    have hlater (i : Nat) (d : β) (hd : cs[i]? = some d) (a : Address) :
        whole ((first + 1 + i) :: a) = look d a := by
      rw [hshift]
      exact hwhole (i + 1) d hd a
    obtain ⟨bs, hascends', hmem', hlook'⟩ := ih hcs hlater
    -- the addresses in the first sibling, and then those in later ones, which begin with more
    refine ⟨as.map (first :: ·) ++ bs, ?_, fun a => ?_, ?_⟩
    · refine List.pairwise_append.2 ⟨List.pairwise_map.2 (hascends.imp fun hlt => .cons hlt),
        hascends', fun a ha b hb => ?_⟩
      obtain ⟨a, -, rfl⟩ := List.mem_map.1 ha
      obtain ⟨i, -, b, rfl, -⟩ := (hmem' b).1 hb
      exact .rel (by omega)
    · rw [List.mem_append, List.mem_map, hmem']
      constructor
      · rintro (⟨b, hb, rfl⟩ | ⟨i, d, b, rfl, hd, hb⟩)
        · exact ⟨0, c, b, rfl, rfl, (hmem b).1 hb⟩
        · exact ⟨i + 1, d, b, by rw [hshift], hd, hb⟩
      · rintro ⟨i, d, b, rfl, hd, hb⟩
        cases i with
        | zero =>
          obtain rfl := Option.some.inj hd
          exact .inl ⟨b, (hmem b).2 hb, rfl⟩
        | succ i => exact .inr ⟨i, d, b, by rw [hshift], hd, hb⟩
    · rw [List.flatMap_cons, List.map_append, List.map_append, hlook', ← hlook, List.map_map]
      congr 1
      exact List.map_congr_left fun a _ => hwhole 0 c rfl a

/-- What is kept of a list in document order is in document order. -/
theorem filter (h : InDocumentOrder look sort xs) (p : α → Bool) :
    InDocumentOrder look (fun a => sort a ∧ ∃ x, look a = some x ∧ p x = true) (xs.filter p) := by
  obtain ⟨as, hascends, hmem, hlook⟩ := h
  refine ⟨as.filter fun a => (look a).any p, hascends.filter _, fun a => ?_, ?_⟩
  · rw [List.mem_filter, hmem, Option.any_eq_true]
  · have hkept : (xs.filter p).map some = (xs.map some).filter (·.any p) := by
      rw [List.filter_map]
      rfl
    rw [hkept, ← hlook, List.filter_map]
    rfl

end InDocumentOrder

namespace SyntaxTree

/-- The subtree at an address. -/
def subtree? (t : SyntaxTree) : Address → Option SyntaxTree
  | [] => some t
  | i :: a => (t.children[i]?).bind (·.subtree? a)

/-- What is true of a tree whenever it is true of the subtrees right below the root is true of all
trees. -/
theorem induction_children {motive : SyntaxTree → Prop}
    (h : ∀ t, (∀ c ∈ t.children, motive c) → motive t) : ∀ t, motive t
  | node _ _ _ _ _ cs => h _ fun c (_ : c ∈ cs) => induction_children h c

theorem forestPreorder_eq (ts : List SyntaxTree) : forestPreorder ts = ts.flatMap preorder := by
  induction ts with
  | nil => rfl
  | cons t ts ih => rw [forestPreorder, ih, List.flatMap_cons]

theorem preorder_eq (t : SyntaxTree) : t.preorder = t :: t.children.flatMap preorder := by
  cases t
  rw [preorder, forestPreorder_eq]
  rfl

/-- What lies below the root is in document order if it is below each of the root's children. -/
theorem inDocumentOrder_below {t : SyntaxTree} (h : ∀ c ∈ t.children,
      InDocumentOrder c.subtree? (fun a => (c.subtree? a).isSome) c.preorder) :
    InDocumentOrder t.subtree? (fun a => a ≠ [] ∧ (t.subtree? a).isSome)
      (forestPreorder t.children) := by
  rw [forestPreorder_eq]
  have hchild (i : Nat) (c : SyntaxTree) (hc : t.children[i]? = some c) (a : Address) :
      t.subtree? ((0 + i) :: a) = c.subtree? a := by
    rw [Nat.zero_add, subtree?, hc, Option.bind_some]
  refine (InDocumentOrder.siblings h hchild).congr fun a => ?_
  constructor
  · rintro ⟨i, c, b, rfl, hc, hb⟩
    exact ⟨List.cons_ne_nil _ _, hchild i c hc b ▸ hb⟩
  · rintro ⟨hne, ha⟩
    cases a with
    | nil => exact absurd rfl hne
    | cons i b =>
      obtain ⟨c, hc⟩ := Option.isSome_iff_exists.1 (Option.isSome_of_isSome_bind ha)
      refine ⟨i, c, b, by rw [Nat.zero_add], hc, ?_⟩
      rwa [← hchild i c hc, Nat.zero_add]

/-- The recursion on a tree lists every node once and in document order. -/
theorem inDocumentOrder_preorder (t : SyntaxTree) :
    InDocumentOrder t.subtree? (fun a => (t.subtree? a).isSome) t.preorder := by
  induction t using induction_children with
  | h t ih =>
    rw [preorder_eq, ← forestPreorder_eq]
    exact .root rfl rfl (inDocumentOrder_below ih)

end SyntaxTree

end CodeAtlas
