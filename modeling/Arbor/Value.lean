import Arbor.Integer

/-!
# Values

What expressions evaluate to. Values of different types are never equal.
-/

namespace Arbor

/-- What an expression evaluates to. -/
inductive Value
  | nil
  | int (value : Int64)
  | bool (value : Bool)
  deriving DecidableEq

namespace Value

/-- The name of the type of a value. -/
def typeName : Value → String
  | nil => "nil"
  | int _ => "int"
  | bool _ => "bool"

/-- What is shown for a value. -/
def text : Value → String
  | nil => "nil"
  | int value => Integer.text value
  | bool true => "true"
  | bool false => "false"

end Value

end Arbor
