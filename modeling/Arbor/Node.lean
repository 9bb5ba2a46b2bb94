import Arbor.Kind

/-!
# Trees

A tree is a node with a kind, a 64-bit value and its children, in order. Only
leaves use their value; every other node holds `Node.unused`. Nothing here asks
that a node has as many children as its kind has operands: trees may be built by
hand, and the evaluator reports those that make no sense.

`size`, `height` and `preorder` follow the structure of the tree. They are what
the work-list traversals of `Arbor.Node.Walk` compute without recursion.
-/

namespace Arbor

/-- A node together with everything below it. -/
inductive Node
  | mk (kind : Kind) (value : Int64) (children : List Node)

namespace Node

/-- What the node stands for. -/
def kind : Node → Kind
  | mk kind _ _ => kind

/-- The payload of the node. -/
def value : Node → Int64
  | mk _ value _ => value

/-- The children of the node, from left to right. -/
def children : Node → List Node
  | mk _ _ children => children

/-- The value of a node that carries none. -/
def unused : Int64 := -1

/-- A childless node. -/
def leaf (kind : Kind) (value : Int64) : Node := mk kind value []

/-- The node that stands where an optional part was left out. -/
def nil : Node := leaf .nil unused

/-- A node over `children`, in the order given. -/
def branch (kind : Kind) (children : List Node) : Node := mk kind unused children

def childCount (node : Node) : Nat := node.children.length

/-- A node without children, whatever its kind. -/
def isLeaf (node : Node) : Bool := node.children.isEmpty

/-! ### The structural view -/

mutual

/-- The number of nodes. -/
def size : Node → Nat
  | mk _ _ children => 1 + sizes children

/-- The number of nodes of a row of trees. -/
def sizes : List Node → Nat
  | [] => 0
  | node :: nodes => node.size + sizes nodes

end

mutual

/-- The number of nodes on the longest way down from the root. -/
def height : Node → Nat
  | mk _ _ children => 1 + heights children

/-- The height of the tallest of a row of trees. -/
def heights : List Node → Nat
  | [] => 0
  | node :: nodes => max node.height (heights nodes)

end

mutual

/-- The nodes, each before its children, the children from left to right. -/
def preorder : Node → List Node
  | mk kind value children => mk kind value children :: preorders children

/-- The nodes of a row of trees, one tree after the other. -/
def preorders : List Node → List Node
  | [] => []
  | node :: nodes => node.preorder ++ preorders nodes

end

/-! ### Equality -/

mutual

/-- Whether two trees are equal, decided from the root down. -/
def decEq : (a b : Node) → Decidable (a = b)
  | mk kind value children, mk kind' value' children' =>
    if h : kind = kind' ∧ value = value' then
      match decEqs children children' with
      | isTrue hc => isTrue (by rw [h.1, h.2, hc])
      | isFalse hc => isFalse fun e => hc (by injection e)
    else isFalse fun e => h (by injection e with hk hv; exact ⟨hk, hv⟩)

/-- Whether two rows of trees are equal. -/
def decEqs : (as bs : List Node) → Decidable (as = bs)
  | [], [] => isTrue rfl
  | [], _ :: _ => isFalse nofun
  | _ :: _, [] => isFalse nofun
  | a :: as, b :: bs =>
    match decEq a b with
    | isFalse h => isFalse fun e => h (by injection e)
    | isTrue h =>
      match decEqs as bs with
      | isFalse hs => isFalse fun e => hs (by injection e)
      | isTrue hs => isTrue (by rw [h, hs])

end

instance : DecidableEq Node := decEq

theorem sizes_append (as bs : List Node) : sizes (as ++ bs) = sizes as + sizes bs := by
  induction as with
  | nil => simp [sizes]
  | cons a as ih => simp [sizes, ih, Nat.add_assoc]

theorem sizes_reverse (nodes : List Node) : sizes nodes.reverse = sizes nodes := by
  induction nodes with
  | nil => rfl
  | cons node nodes ih => simp [sizes, sizes_append, ih, Nat.add_comm]

theorem size_eq (node : Node) : node.size = 1 + sizes node.children := by
  cases node with
  | mk kind value children => rw [size, Node.children]

end Node

end Arbor
