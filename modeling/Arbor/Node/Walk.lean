import Arbor.Node

/-!
# Traversals without recursion

Trees grow as tall as their source is long, so the traversals here keep their own
list of the nodes still to visit instead of recursing into the children. A visit
takes the first pending node and puts its children in front of the others. The first
child comes first in a walk, which makes the order that of `Node.preorder`; the last
one does where only the levels are looked at. The number of pending nodes and nodes below
them goes down by one with every visit, and this is why the visits end.
-/

namespace Arbor

namespace Node

/-- Visits the pending nodes and all below them, after those already seen (the
    last one first). -/
def visit (pending seen : List Node) : List Node :=
  match pending with
  | [] => seen.reverse
  | node :: rest => visit (node.children ++ rest) (node :: seen)
termination_by sizes pending
decreasing_by simp only [sizes, sizes_append, size_eq node]; omega

/-- The nodes of the tree, each before its children. -/
def walk (node : Node) : List Node := visit [node] []

/-- How many nodes the walk meets. -/
def count (node : Node) : Nat := node.walk.length

/-- The deepest level at or below the pending nodes, which come with their levels. -/
def deepest (pending : List (Node × Nat)) (best : Nat) : Nat :=
  match pending with
  | [] => best
  | (node, level) :: rest =>
    deepest ((node.children.map (·, level + 1)).reverse ++ rest) (max best level)
termination_by sizes (pending.map (·.1))
decreasing_by
  simp only [List.map_cons, List.map_append, List.map_reverse, List.map_map, Function.comp_def,
    List.map_id', sizes, sizes_append, sizes_reverse, size_eq node]
  omega

/-- The number of levels of the tree. -/
def depth (node : Node) : Nat := deepest [(node, 1)] 0

end Node

end Arbor
