import Arbor.Namespace
import Arbor.ParseTree

/-!
# Evaluation

Trees are evaluated operands first, from left to right. Literals stand for
themselves, a symbol for the value its name is bound to, or nil. An assignment
binds the name on its left and has the value of its right side. Comparisons take
any two values, and arithmetic takes integers; its results are exact or an error.
The first error ends the evaluation, and bindings made before it stay.

Trees made by hand may have the wrong number of operands, or symbols without a
name: these are errors as well.
-/

namespace Arbor

/-- Why a tree has no value. -/
inductive EvalError
  /-- An arithmetic operator over other than two integers. -/
  | typeMismatch (operator : Kind) (left right : String)
  | divisionByZero
  /-- A result that is no 64-bit integer. -/
  | overflow (operator : Kind)
  /-- A node with other than two operands, or an assignment to other than a name. -/
  | malformed (kind : Kind) (children : Nat)
  /-- A symbol without a name. -/
  | unresolved (fault : Fault)
  deriving DecidableEq

namespace EvalError

def message : EvalError → String
  | typeMismatch operator left right => s!"cannot apply {operator.name} to {left} and {right}"
  | divisionByZero => "division by zero"
  | overflow operator => s!"integer overflow in {operator.name}"
  | malformed kind children => s!"malformed {kind.name} node with {children} children"
  | unresolved fault => fault.message

end EvalError

namespace Evaluation

/-- The result of an operator, if a 64-bit integer has its value. -/
def result? : Kind → Int64 → Int64 → Option Int64
  | .add, a, b => Integer.add? a b
  | .subtract, a, b => Integer.sub? a b
  | .multiply, a, b => Integer.mul? a b
  | .divide, a, b => Integer.div? a b
  | _, _, _ => none

/-- An arithmetic operator on integers. -/
def arithmetic (kind : Kind) (a b : Int64) : Except EvalError Value :=
  if kind = .divide ∧ b = 0 then .error .divisionByZero
  else
    match result? kind a b with
    | some c => .ok (.int c)
    | none => .error (.overflow kind)

/-- An operator on values. -/
def operate : Kind → Value → Value → Except EvalError Value
  | .compare, a, b => .ok (.bool (a = b))
  | .inverseCompare, a, b => .ok (.bool (a ≠ b))
  | kind, .int a, .int b => arithmetic kind a b
  | kind, a, b => .error (.typeMismatch kind a.typeName b.typeName)

end Evaluation

namespace ParseTree

/-- The value a symbol stands for. -/
def resolve (tree : ParseTree) (node : Node) (names : Namespace) : Except EvalError Value :=
  match tree.symbolText node with
  | .ok name => .ok ((names.get? name).getD .nil)
  | .error fault => .error (.unresolved fault)

/-- Binds the name of a symbol. -/
def bind (tree : ParseTree) (target : Node) (value : Value) (names : Namespace) :
    Except EvalError Value × Namespace :=
  match tree.symbolText target with
  | .ok name => (.ok value, names.set name value)
  | .error fault => (.error (.unresolved fault), names)

/-- Evaluates a node with the symbols of the tree, and says which names are bound
    afterwards. -/
def eval (tree : ParseTree) : Node → Namespace → Except EvalError Value × Namespace
  | .mk .number value _, names => (.ok (.int value), names)
  | .mk .boolean value _, names => (.ok (.bool (value ≠ 0)), names)
  | .mk .nil _ _, names => (.ok .nil, names)
  | .mk .symbol value children, names => (tree.resolve (.mk .symbol value children) names, names)
  | .mk .assign _ [target, source], names =>
    if target.kind = .symbol then
      match tree.eval source names with
      | (.ok value, names) => tree.bind target value names
      | failed => failed
    else (.error (.malformed .assign 2), names)
  | .mk kind _ [left, right], names =>
    match tree.eval left names with
    | (.ok a, names) =>
      match tree.eval right names with
      | (.ok b, names) => (Evaluation.operate kind a b, names)
      | failed => failed
    | failed => failed
  | .mk kind _ children, names => (.error (.malformed kind children.length), names)

/-- Evaluates the tree. -/
def evaluate (tree : ParseTree) (names : Namespace) : Except EvalError Value × Namespace :=
  tree.eval tree.root names

end ParseTree

end Arbor
