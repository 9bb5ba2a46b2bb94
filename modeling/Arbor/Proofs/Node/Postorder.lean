import Arbor.Node

/-!
# Trees in post-order

In *post-order* every node comes after its children, and these come from left to
right: the order in which a tree is built bottom up. A node shows of itself a
*label*: its kind, its value and the number of its children.

Engines build trees of one form only (`Node.Built`): what is of a leaf kind has
no children, and what is not carries no value.
-/

namespace Arbor

namespace Node

/-- What a node shows of itself. -/
structure Label where
  kind : Kind
  value : Int64
  childCount : Nat
  deriving DecidableEq

/-- The label of the root. -/
def label (node : Node) : Label := ⟨node.kind, node.value, node.childCount⟩

mutual

/-- The nodes, each after its children, the children from left to right. -/
def postorder : Node → List Node
  | mk kind value children => postorders children ++ [mk kind value children]

/-- The nodes of a row of trees, one tree after the other. -/
def postorders : List Node → List Node
  | [] => []
  | node :: nodes => node.postorder ++ postorders nodes

end

theorem postorder_eq (node : Node) : node.postorder = postorders node.children ++ [node] := by
  cases node with
  | mk kind value children => rw [postorder, Node.children]

theorem postorders_append (as bs : List Node) :
    postorders (as ++ bs) = postorders as ++ postorders bs := by
  induction as with
  | nil => rfl
  | cons a as ih => rw [List.cons_append, postorders, postorders, ih, List.append_assoc]

theorem postorders_singleton (node : Node) : postorders [node] = node.postorder := by
  rw [postorders, postorders, List.append_nil]

/-- A tree in which whatever is of a leaf kind is childless, and whatever is not
    carries no value. It may have any number of children. -/
inductive Built : Node → Prop
  | leaf {kind : Kind} (value : Int64) : kind.isLeaf = true → Built (leaf kind value)
  | branch {kind : Kind} {children : List Node} : kind.isLeaf = false →
      (∀ child ∈ children, Built child) → Built (branch kind children)

end Node

end Arbor
