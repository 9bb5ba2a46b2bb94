import Arbor.Kind

/-!
# Ways to break the build protocol

An engine builds a tree by pushing leaves onto a stack and reducing the nodes on
top of it. These are the calls that cannot be carried out, and the final stacks
that are no tree.
-/

namespace Arbor

/-- What an engine did against the build protocol. -/
inductive Violation
  /-- A reduction of more nodes than there are. -/
  | stackUnderflow (kind : Kind) (needed available : Nat)
  /-- A push onto a full stack. -/
  | stackOverflow (capacity : Nat)
  /-- A symbol more than the table takes. -/
  | symbolCapacityExceeded (capacity : Nat)
  /-- A leaf of a kind that has children. -/
  | notALeaf (kind : Kind)
  /-- Children for a node of a kind that has none. -/
  | leafReduction (kind : Kind) (arity : Nat)
  /-- A stack of other than one node at the end. -/
  | invalidFinalStack (depth : Nat)
  deriving DecidableEq

namespace Violation

def message : Violation → String
  | stackUnderflow kind needed available =>
    s!"stack underflow: reduce of {kind.name} needs {needed} nodes, {available} available"
  | stackOverflow capacity => s!"stack overflow: capacity of {capacity} nodes exceeded"
  | symbolCapacityExceeded capacity => s!"symbol capacity of {capacity} entries exceeded"
  | notALeaf kind => s!"{kind.name} is not a leaf type and cannot be pushed as one"
  | leafReduction kind arity => s!"leaf type {kind.name} cannot be built from {arity} children"
  | invalidFinalStack depth =>
    s!"grammar engine finished with {depth} nodes on the stack, expected exactly one"

end Violation

end Arbor
