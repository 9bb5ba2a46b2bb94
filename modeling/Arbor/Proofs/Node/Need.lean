import Arbor.Proofs.Build.Demand
import Arbor.Proofs.Node.Postorder

/-!
# How much of the stack a tree needs

A tree is built in post-order: while a child is built, the trees to its left are on the
stack already. So a leaf needs one place, and a node over two trees needs what the left
one needs, or one place more than the right one needs. The need of a tree is exactly the
peak of the demands of its nodes in post-order (`Node.peak_demands`).
-/

namespace Arbor

namespace Node

/-- What making the node wants of the workspace, once its children are there. -/
def demand (node : Node) : Demand :=
  match node.children with
  | [] => .leaf (node.kind = .symbol)
  | _ :: _ => .branch node.childCount

/-- The demands of all nodes, in post-order. -/
def demands (root : Node) : List Demand := root.postorder.map demand

mutual

/-- How many places on the stack building the tree takes. -/
def need : Node → Nat
  | mk _ _ children => max 1 (needs children)

/-- How many places building a row of trees takes. Each of them stays on the stack. -/
def needs : List Node → Nat
  | [] => 0
  | node :: nodes => max node.need (1 + needs nodes)

end

theorem length_le_needs (nodes : List Node) : nodes.length ≤ needs nodes := by
  induction nodes with
  | nil => exact Nat.le_refl 0
  | cons node nodes ih =>
    rw [needs, List.length_cons]
    omega

theorem demands_pair {kind : Kind} (left right : Node) :
    (branch kind [left, right]).demands = left.demands ++ right.demands ++ [.branch 2] := by
  simp [demands, branch, postorder, postorders, demand, children, childCount]

/-- A branch of the demands has children. -/
theorem branch_zero_notMem_demands (root : Node) : .branch 0 ∉ root.demands := by
  intro h
  obtain ⟨node, -, hd⟩ := List.mem_map.1 h
  cases hc : node.children <;> simp [demand, childCount, hc] at hd

mutual

/-- Building a tree leaves it on the stack. -/
theorem treesAfterAll_demands (trees : Nat) :
    ∀ root : Node, Demand.treesAfterAll trees root.demands = trees + 1
  | mk kind value children => by
    have h := treesAfterAll_postorders trees children
    rw [demands, postorder, List.map_append, Demand.treesAfterAll_append, h]
    cases children with
    | nil => rfl
    | cons child children =>
      simp only [List.map_cons, List.map_nil, Demand.treesAfterAll, List.foldl_cons, List.foldl_nil,
        demand, Node.children, childCount, Demand.treesAfter]
      omega

theorem treesAfterAll_postorders (trees : Nat) :
    ∀ nodes : List Node,
      Demand.treesAfterAll trees ((postorders nodes).map demand) = trees + nodes.length
  | [] => rfl
  | node :: nodes => by
    rw [postorders, List.map_append, Demand.treesAfterAll_append]
    change Demand.treesAfterAll (Demand.treesAfterAll trees node.demands) _ = _
    rw [treesAfterAll_demands trees node, treesAfterAll_postorders _ nodes, List.length_cons]
    omega

end

mutual

/-- The need of a tree is the peak of its demands. -/
theorem peak_demands (trees : Nat) :
    ∀ root : Node, Demand.peak trees root.demands = trees + root.need
  | mk kind value children => by
    have h := peak_postorders trees children
    have hlength := length_le_needs children
    rw [demands, postorder, List.map_append, Demand.peak_append, h, treesAfterAll_postorders, need]
    -- The root takes a place of its own if it is a leaf, and else that of its first child.
    cases children with
    | nil =>
      simp only [List.map_cons, List.map_nil, Demand.peak, demand, Node.children,
        Demand.treesAfter, List.length_nil]
      omega
    | cons child children =>
      simp only [List.map_cons, List.map_nil, Demand.peak, demand, Node.children, childCount,
        Demand.treesAfter, List.length_cons] at hlength ⊢
      omega

theorem peak_postorders (trees : Nat) :
    ∀ nodes : List Node,
      Demand.peak trees ((postorders nodes).map demand) = trees + needs nodes
  | [] => rfl
  | node :: nodes => by
    rw [postorders, List.map_append, Demand.peak_append]
    change max (Demand.peak trees node.demands)
      (Demand.peak (Demand.treesAfterAll trees node.demands) _) = _
    rw [peak_demands trees node, treesAfterAll_demands, peak_postorders _ nodes, needs]
    omega

end

end Node

end Arbor
