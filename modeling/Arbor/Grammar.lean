import Arbor.Build.Workspace
import Arbor.Token

/-!
# The expression grammar

A program is one statement among statement ends. A statement is an expression, or
a name, `=` and an expression. Expressions have three *levels*: operands of a
level are joined by its operators, which group to the left, and an operand is an
expression of the next tighter level. The operands of the tightest level are
literals, names and expressions in parentheses.

Two *bounds* keep trees and recursion over them small. What exceeds a bound is no
program.
-/

namespace Arbor

/-- How deep parentheses nest and how tall a tree grows at most. -/
structure Bounds where
  maxNesting : Nat := 256
  maxDepth : Nat := 512
  deriving DecidableEq

/-- The levels of expressions, the loosest first. -/
inductive Level
  /-- Sums joined by `==` and `!=`. -/
  | comparison
  /-- Products joined by `+` and `-`. -/
  | sum
  /-- Values joined by `*` and `/`. -/
  | product
  deriving DecidableEq

namespace Level

/-- The kind of node that an operator of the level makes. -/
def operator? : Level → Token → Option Kind
  | comparison, .equals => some .compare
  | comparison, .notEquals => some .inverseCompare
  | sum, .plus => some .add
  | sum, .minus => some .subtract
  | product, .star => some .multiply
  | product, .slash => some .divide
  | _, _ => none

end Level

namespace Token

/-- How the leaf of a literal or a name is pushed. -/
def leaf? : Token → Option BuildOp
  | number value => some (.pushNumber (Int64.ofNat value))
  | boolean value => some (.pushBoolean value)
  | nil => some .pushNil
  | ident name => some (.pushSymbol name)
  | _ => none

end Token

end Arbor
