import Arbor.Double

/-!
# JSON values

Whole numbers of 64 bits, with a sign or without, are kept apart from all other
numbers, which are doubles. The members of an object are kept as they are written,
in order and with repeated names.
-/

namespace Arbor

/-- A JSON value. -/
inductive Json
  | null
  | bool (value : Bool)
  /-- A whole number of 64 bits. -/
  | int (value : Int)
  /-- Any other number. -/
  | float (value : Double)
  | string (value : String)
  | array (items : List Json)
  | object (members : List (String × Json))

namespace Json

/-- The value of a member; of repeated names the last one counts. -/
def get? (name : String) (members : List (String × Json)) : Option Json :=
  (members.reverse.find? (·.1 == name)).map (·.2)

end Json

end Arbor
