import CodeAtlas.Dict
import CodeAtlas.Json.Basic

/-!
# Syntax trees

Concrete syntax trees of source texts. A node has a type, is named or anonymous, may fill a
field of its parent, and covers a range of the text's bytes. Descendants are listed in
document order, by an explicit stack of the subtrees that are still to be visited.
-/

namespace CodeAtlas

/-- A node of a concrete syntax tree with the subtrees below it. -/
inductive SyntaxTree where
  | node (type : String) (named : Bool) (field : String) (start stop : Nat)
    (children : List SyntaxTree)
  deriving Repr, Inhabited

namespace SyntaxTree

/-- The type of a node. -/
def type : SyntaxTree → String
  | node t _ _ _ _ _ => t

/-- Whether the grammar gives the node a name. -/
def named : SyntaxTree → Bool
  | node _ n _ _ _ _ => n

/-- The field of its parent that the node fills, empty for none. -/
def field : SyntaxTree → String
  | node _ _ f _ _ _ => f

/-- The first byte of the node. -/
def start : SyntaxTree → Nat
  | node _ _ _ a _ _ => a

/-- The first byte after the node. -/
def stop : SyntaxTree → Nat
  | node _ _ _ _ b _ => b

/-- The subtrees right below a node. -/
def children : SyntaxTree → List SyntaxTree
  | node _ _ _ _ _ cs => cs

/-- The named subtrees right below a node. -/
def namedChildren (t : SyntaxTree) : List SyntaxTree := t.children.filter (·.named)

/-- The first subtree that fills a field. -/
def child? (t : SyntaxTree) (field : String) : Option SyntaxTree :=
  t.children.find? (·.field == field)

/-- The subtrees that fill a field. -/
def childrenOf (t : SyntaxTree) (field : String) : List SyntaxTree :=
  t.children.filter (·.field == field)

/-- Whether the node has one of the types. -/
def isOneOf (t : SyntaxTree) (types : List String) : Bool := types.contains t.type

theorem isOneOf_of_type {t : SyntaxTree} {type : String} (h : t.type = type)
    (types : List String) : t.isOneOf types = types.contains type := by
  rw [isOneOf, h]

mutual
/-- The number of nodes of a tree. -/
def size : SyntaxTree → Nat
  | node _ _ _ _ _ cs => 1 + forestSize cs

/-- The number of nodes of several trees. -/
def forestSize : List SyntaxTree → Nat
  | [] => 0
  | t :: ts => size t + forestSize ts
end

theorem forestSize_append (as bs : List SyntaxTree) :
    forestSize (as ++ bs) = forestSize as + forestSize bs := by
  induction as with
  | nil => simp [forestSize]
  | cons a as ih => simp [forestSize, ih, Nat.add_assoc]

theorem forestSize_children_lt (t : SyntaxTree) : forestSize t.children < t.size := by
  cases t with
  | node ty n f a b cs => simp [children, size]

/-- All nodes of the stacked subtrees: the top one, then those below it, then the others. -/
def visitStack : List SyntaxTree → List SyntaxTree
  | [] => []
  | t :: rest => t :: visitStack (t.children ++ rest)
  termination_by stack => forestSize stack
  decreasing_by
    rw [forestSize_append]
    simp only [forestSize]
    have := forestSize_children_lt t
    omega

/-- The proper descendants of a node that have one of the types, in document order. -/
def descendants (t : SyntaxTree) (types : List String) : List SyntaxTree :=
  (visitStack t.children).filter fun d => d.isOneOf types

mutual
/-- All nodes of a tree in document order, by recursion on the tree. -/
def preorder : SyntaxTree → List SyntaxTree
  | t@(node _ _ _ _ _ cs) => t :: forestPreorder cs

/-- All nodes of several trees in document order. -/
def forestPreorder : List SyntaxTree → List SyntaxTree
  | [] => []
  | t :: ts => preorder t ++ forestPreorder ts
end

end SyntaxTree

end CodeAtlas

/-!
## Syntax trees as documents

A node is written as a list: its type, its field, its first byte, the byte after its last one
and, if there are any, its children. The type of an anonymous node follows an apostrophe. What
is no node is read as a node without text.
-/

namespace CodeAtlas.SyntaxTree

/-- A written type and whether the node is named. -/
def readType (text : String) : String × Bool :=
  match text.toList with
  | '\'' :: cs => (String.ofList cs, false)
  | cs => (String.ofList cs, true)

mutual
/-- The tree that a document describes. -/
def ofJson : Json → SyntaxTree
  | .array [.string type, .string field, .int start, .int stop, .array children] =>
    .node (readType type).1 (readType type).2 field start.toNat stop.toNat (ofItems children)
  | .array [.string type, .string field, .int start, .int stop] =>
    .node (readType type).1 (readType type).2 field start.toNat stop.toNat []
  | _ => .node "" true "" 0 0 []

/-- The trees that documents describe. -/
def ofItems : List Json → List SyntaxTree
  | [] => []
  | v :: rest => ofJson v :: ofItems rest
end

end CodeAtlas.SyntaxTree
