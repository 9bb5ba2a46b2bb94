/-!
# Kinds of nodes

What a node of a tree stands for. Four kinds are *leaves*: numbers, booleans,
symbols and nil. The others are *branches*: an assignment, the four arithmetic
operators and the two comparisons, each of two operands.
-/

namespace Arbor

/-- What a node of a tree stands for. -/
inductive Kind
  | number
  | boolean
  | symbol
  | nil
  | assign
  | add
  | subtract
  | multiply
  | divide
  | compare
  | inverseCompare
  deriving DecidableEq

namespace Kind

/-- Every kind, the leaves first. -/
def all : List Kind :=
  [number, boolean, symbol, nil, assign, add, subtract, multiply, divide, compare, inverseCompare]

/-- The name a kind is shown and written by. -/
def name : Kind → String
  | number => "Number"
  | boolean => "Boolean"
  | symbol => "Symbol"
  | nil => "Nil"
  | assign => "Assign"
  | add => "Add"
  | subtract => "Subtract"
  | multiply => "Multiply"
  | divide => "Divide"
  | compare => "Compare"
  | inverseCompare => "InverseCompare"

/-- The kind of a given name. -/
def ofName? (name : String) : Option Kind :=
  all.find? (·.name == name)

/-- The kinds of childless nodes. -/
def isLeaf : Kind → Bool
  | number | boolean | symbol | nil => true
  | _ => false

/-- The number of operands of a kind. -/
def arity (kind : Kind) : Nat :=
  if kind.isLeaf then 0 else 2

theorem ofName?_name (kind : Kind) : ofName? kind.name = some kind := by cases kind <;> decide

end Kind

end Arbor
