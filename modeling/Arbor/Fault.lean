import Arbor.Integer
import Arbor.Kind

/-!
# Faults

Questions about a tree that have no answer. They are mistakes of whoever asks and
not of the source, so they stop whatever asked.
-/

namespace Arbor

/-- A question about a tree that has no answer. -/
inductive Fault
  /-- There is no child at this position. -/
  | childOutOfRange (index : Nat) (kind : Kind) (children : Nat)
  /-- Only symbols have a name. -/
  | notASymbol (kind : Kind)
  /-- The table of `symbols` entries did not give out this index. -/
  | notInterned (value : Int64) (symbols : Nat)
  deriving DecidableEq

namespace Fault

/-- The report of two things that should be the same and are not. -/
def comparison (what left right : String) : String :=
  s!"assertion `left == right` failed: {what}\n  left: {left}\n right: {right}"

def message : Fault → String
  | childOutOfRange index kind children =>
    s!"child index {index} out of range for {kind.name} node with {children} children"
  | notASymbol kind =>
    comparison s!"symbol_text called on a {kind.name} node" kind.name Kind.symbol.name
  | notInterned value symbols =>
    s!"symbol index {Integer.text value} was not interned by this parse ({symbols} symbols)"

end Fault

end Arbor
