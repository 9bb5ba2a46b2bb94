import Arbor.Node
import Arbor.Violation

/-!
# The build stack

Trees are built bottom up: a leaf is pushed, and a reduction of arity `k` makes
the `k` nodes on top the children of a new node, in the order they were pushed.
The stack thus holds a row of finished trees. A stack may have a capacity, which
only pushes respect: a reduction of arity zero adds a node whatever the capacity.
-/

namespace Arbor

/-- Finished trees, the most recent first. -/
structure BuildStack where
  nodes : List Node := []
  /-- The most nodes a push leaves on the stack; none if there is no bound. -/
  capacity : Option Nat := none
  /-- The number of nodes, kept so that pushes need not count. -/
  size : Nat := nodes.length
  size_eq : size = nodes.length := by rfl

namespace BuildStack

theorem ext {s t : BuildStack} (hn : s.nodes = t.nodes) (hc : s.capacity = t.capacity) : s = t := by
  cases s with
  | mk nodes capacity size hs =>
    cases t with
    | mk nodes' capacity' size' ht =>
      cases hn
      cases hc
      cases hs
      cases ht
      rfl

/-- The stack with one more node on top. -/
def cons (node : Node) (stack : BuildStack) : BuildStack :=
  { stack with
    nodes := node :: stack.nodes
    size := stack.size + 1
    size_eq := by simp [stack.size_eq] }

/-- Puts a node on top, if the capacity allows. -/
def push (stack : BuildStack) (node : Node) : Except Violation BuildStack :=
  match stack.capacity with
  | some capacity =>
    if capacity ≤ stack.size then .error (.stackOverflow capacity) else .ok (stack.cons node)
  | none => .ok (stack.cons node)

/-- Pushes a childless node, which must be of a leaf kind. -/
def pushLeaf (stack : BuildStack) (kind : Kind) (value : Int64) : Except Violation BuildStack :=
  if kind.isLeaf then stack.push (.leaf kind value) else .error (.notALeaf kind)

/-- Pushes the node that stands for a part left out. -/
def pushNil (stack : BuildStack) : Except Violation BuildStack := stack.push .nil

/-- Replaces the `arity` nodes on top by one node over them. Leaf kinds take no
    children, and there must be as many nodes as the reduction asks for. -/
def reduce (stack : BuildStack) (kind : Kind) (arity : Nat) : Except Violation BuildStack :=
  if kind.isLeaf ∧ 0 < arity then .error (.leafReduction kind arity)
  else if h : stack.size < arity then .error (.stackUnderflow kind arity stack.size)
  else
    .ok { stack with
      nodes := .branch kind (stack.nodes.take arity).reverse :: stack.nodes.drop arity
      size := stack.size - arity + 1
      size_eq := by simp [stack.size_eq] }

/-- The node on top. -/
def peek (stack : BuildStack) : Option Node := stack.nodes.head?

/-- Takes the node on top off. -/
def pop (stack : BuildStack) : Option Node × BuildStack :=
  (stack.nodes.head?,
    { stack with
      nodes := stack.nodes.tail
      size := stack.size - 1
      size_eq := by simp [stack.size_eq] })

/-- The stack without nodes. -/
def ofCapacity (capacity : Option Nat) : BuildStack := { capacity }

/-- The same stack without its nodes. -/
def clear (stack : BuildStack) : BuildStack := .ofCapacity stack.capacity

/-- The same nodes under another bound. -/
def setCapacity (stack : BuildStack) (capacity : Option Nat) : BuildStack :=
  { stack with capacity }

/-- The trees from the oldest to the most recent. -/
def toList (stack : BuildStack) : List Node := stack.nodes.reverse

end BuildStack

end Arbor
