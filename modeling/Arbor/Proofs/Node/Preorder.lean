import Arbor.Proofs.Node.Postorder
import Arbor.Proofs.Node.Walk

/-!
# What the walk tells

The traversals have no recursion of their own, only a list of pending nodes. What a visit lists are
the nodes already seen, and behind them the pending nodes with all below them
(`Node.visit_eq`). From the root alone this is the tree in pre-order, so that the nodes
are counted once each.

For the deepest level it does not matter in which order the pending nodes are taken. A traversal
that takes any of them next (`Node.Measures`) finds the deepest level that they reach down to
(`Node.measures_iff`).

The labels in pre-order, with the number of children of every node, tell the tree. They are read
from the front: the first one says how many trees follow below it
(`Node.eq_of_labels_append`).
-/

namespace Arbor

namespace Node

/-! ### The walk -/

theorem preorder_eq (node : Node) : node.preorder = node :: preorders node.children := by
  cases node with
  | mk kind value children => rw [preorder, Node.children]

theorem preorders_append (as bs : List Node) :
    preorders (as ++ bs) = preorders as ++ preorders bs := by
  induction as with
  | nil => rfl
  | cons a as ih => rw [List.cons_append, preorders, preorders, ih, List.append_assoc]

/-- Visits list what was seen, and then the pending nodes with all below them. -/
theorem visit_eq (pending seen : List Node) :
    visit pending seen = seen.reverse ++ preorders pending := by
  fun_induction visit pending seen with
  | case1 seen => rw [preorders, List.append_nil]
  | case2 seen node rest ih =>
    rw [ih, preorders_append, List.reverse_cons, preorders, preorder_eq, List.append_assoc,
      List.singleton_append, List.cons_append]

/-- The walk is the tree in pre-order. -/
theorem walk_eq_preorder (node : Node) : node.walk = node.preorder := by
  rw [walk, visit_eq, preorders, preorders, List.append_nil, List.reverse_nil, List.nil_append]

mutual

theorem length_preorder : ∀ node : Node, node.preorder.length = node.size
  | mk kind value children => by
    rw [preorder, size, List.length_cons, length_preorders children, Nat.add_comm]

theorem length_preorders : ∀ nodes : List Node, (preorders nodes).length = sizes nodes
  | [] => rfl
  | node :: nodes => by
    rw [preorders, sizes, List.length_append, length_preorder node, length_preorders nodes]

end

/-- The walk meets every node once. -/
theorem count_eq_size (node : Node) : node.count = node.size := by
  rw [count, walk_eq_preorder, length_preorder]

/-! ### Levels in any order -/

/-- A traversal finds `found` as the deepest level, from `best` on. It takes any of the pending
    nodes next, and puts its children among the others. -/
inductive Measures : List (Node × Nat) → Nat → Nat → Prop
  | done {best : Nat} : Measures [] best best
  | take {pending rest : List (Node × Nat)} {node : Node} {level best found : Nat} :
      pending.Perm ((node, level) :: rest) →
      Measures (node.children.map (·, level + 1) ++ rest) (max best level) found →
      Measures pending best found

/-- Nor does it matter in which order they are listed. -/
theorem Measures.perm {pending pending' : List (Node × Nat)} {best found : Nat}
    (h : Measures pending best found) (hperm : pending.Perm pending') :
    Measures pending' best found := by
  cases h with
  | done =>
    rw [List.nil_perm.1 hperm]
    exact .done
  | take hnext hrest => exact .take (hperm.symm.trans hnext) hrest

/-- Every traversal finds the deepest level that its pending nodes reach down to. -/
theorem measures_iff {pending : List (Node × Nat)} {best found : Nat} :
    Measures pending best found ↔ found = max best (floor pending) := by
  constructor
  · intro h
    induction h with
    | done => exact (Nat.max_zero _).symm
    | take hperm _ ih => rw [ih, floor_perm hperm, floor, Nat.max_assoc, floor_children]
  · rintro rfl
    rw [← deepest_eq]
    -- It comes to an end, for one that always takes the first pending node does.
    fun_induction deepest pending best with
    | case1 best => exact .done
    | case2 best node level rest ih =>
      exact .take (.refl _) (ih.perm ((List.reverse_perm _).append_right rest))

/-! ### Trees from their labels -/

mutual

/-- The labels of a tree in pre-order tell the tree, and where they end. -/
theorem eq_of_labels_append : ∀ {node node' : Node} {rest rest' : List Label},
    node.preorder.map label ++ rest = node'.preorder.map label ++ rest' →
      node = node' ∧ rest = rest'
  | mk kind value children, mk kind' value' children', rest, rest', h => by
    rw [preorder, preorder, List.map_cons, List.map_cons] at h
    obtain ⟨hlabel, hbelow⟩ := List.cons.inj h
    obtain ⟨rfl, rfl, hcount⟩ := Label.mk.inj hlabel
    obtain ⟨rfl, hrest⟩ := eq_of_labels_append_of_length hcount hbelow
    exact ⟨rfl, hrest⟩

/-- The labels of so many trees in pre-order tell these trees, and where they end. -/
theorem eq_of_labels_append_of_length : ∀ {nodes nodes' : List Node} {rest rest' : List Label},
    nodes.length = nodes'.length →
      (preorders nodes).map label ++ rest = (preorders nodes').map label ++ rest' →
        nodes = nodes' ∧ rest = rest'
  | [], [], _, _, _, h => ⟨rfl, h⟩
  | node :: nodes, node' :: nodes', rest, rest', hlength, h => by
    rw [preorders, preorders, List.map_append, List.map_append, List.append_assoc,
      List.append_assoc] at h
    obtain ⟨rfl, hnodes⟩ := eq_of_labels_append h
    obtain ⟨rfl, hrest⟩ := eq_of_labels_append_of_length (Nat.succ.inj hlength) hnodes
    exact ⟨rfl, hrest⟩

end

/-- The traversals compute the structure of a tree, and the walk tells the tree.

    The walk is the tree in pre-order, the count is its size, and the depth is its height, which is
    1 for a leaf. This height is found in whatever order the pending nodes are taken. Two trees are
    the same if and only if their walks show the same kinds, values and numbers of children in the
    same order. -/
theorem walk_tells_tree (node : Node) :
    node.walk = node.preorder ∧ node.count = node.size ∧ node.depth = node.height ∧
      (∀ kind value, (leaf kind value).depth = 1) ∧
        (∀ found, Measures [(node, 1)] 0 found ↔ found = node.height) ∧
          ∀ node' : Node, node = node' ↔ node.walk.map label = node'.walk.map label := by
  refine ⟨walk_eq_preorder node, count_eq_size node, depth_eq_height node,
    fun kind value => depth_eq_height _, fun found => ?_, fun node' => ?_⟩
  · rw [← depth_eq_height, depth, deepest_eq]
    exact measures_iff
  · constructor
    · rintro rfl
      rfl
    · intro h
      rw [walk_eq_preorder, walk_eq_preorder] at h
      exact (eq_of_labels_append (congrArg (· ++ []) h)).1

end Node

end Arbor
