import Arbor.Node.Walk

/-!
# Levels and heights

The traversal that finds the deepest level of a tree keeps a list of pending nodes, each
with its level. What it finds is the deepest level that any of these reach down to
(`Node.deepest_eq`), and from the root alone this is the height (`Node.depth_eq_height`).
No node of a tree has a greater one (`Node.height_le_of_mem_preorder`).
-/

namespace Arbor

namespace Node

/-- The deepest level that the pending nodes reach down to. -/
def floor : List (Node × Nat) → Nat
  | [] => 0
  | (node, level) :: rest => max (level + heights node.children) (floor rest)

theorem height_eq (node : Node) : node.height = 1 + heights node.children := by
  cases node with
  | mk kind value children => rw [height, Node.children]

/-- The children of a node at `level` reach down as far as the node does. -/
theorem floor_children (level : Nat) (children : List Node) (rest : List (Node × Nat)) :
    max level (floor (children.map (·, level + 1) ++ rest)) =
      max (level + heights children) (floor rest) := by
  induction children with
  | nil => rfl
  | cons child children ih =>
    rw [List.map_cons, List.cons_append, floor, heights, height_eq]
    omega

/-- How deep the pending nodes reach does not depend on their order. -/
theorem floor_perm {pending pending' : List (Node × Nat)} (h : pending.Perm pending') :
    floor pending = floor pending' := by
  induction h with
  | nil => rfl
  | cons first _ ih => rw [floor, floor, ih]
  | swap first second rest =>
    rw [floor, floor, floor, floor]
    exact Nat.max_left_comm _ _ _
  | trans _ _ ih ih' => exact ih.trans ih'

/-- The traversal finds the deepest level that its pending nodes reach down to. -/
theorem deepest_eq (pending : List (Node × Nat)) (best : Nat) :
    deepest pending best = max best (floor pending) := by
  fun_induction deepest pending best with
  | case1 best => exact (Nat.max_zero best).symm
  | case2 best node level rest ih =>
    rw [ih, floor_perm ((List.reverse_perm _).append_right rest), floor, Nat.max_assoc,
      floor_children]

/-- The number of levels of a tree is its height. -/
theorem depth_eq_height (node : Node) : node.depth = node.height := by
  rw [depth, deepest_eq, floor, floor, height_eq]
  omega

/-! ### Heights below a node -/

theorem mem_preorder_self (root : Node) : root ∈ root.preorder := by
  cases root with
  | mk kind value children => exact List.mem_cons_self

mutual

/-- No node of a tree is taller than the tree. -/
theorem height_le_of_mem_preorder {n : Node} :
    ∀ {root : Node}, n ∈ root.preorder → n.height ≤ root.height
  | mk kind value children, h => by
    rw [preorder] at h
    rcases List.mem_cons.1 h with rfl | h
    · exact Nat.le_refl _
    · exact Nat.le_trans (height_le_of_mem_preorders h) (Nat.le_add_left _ _)

theorem height_le_of_mem_preorders {n : Node} :
    ∀ {nodes : List Node}, n ∈ preorders nodes → n.height ≤ heights nodes
  | node :: nodes, h => by
    rw [preorders] at h
    rw [heights]
    rcases List.mem_append.1 h with h | h
    · exact Nat.le_trans (height_le_of_mem_preorder h) (Nat.le_max_left _ _)
    · exact Nat.le_trans (height_le_of_mem_preorders h) (Nat.le_max_right _ _)

end

end Node

end Arbor
