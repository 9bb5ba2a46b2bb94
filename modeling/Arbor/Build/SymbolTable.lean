import Arbor.Violation

/-!
# Symbol tables

A table gives every text it takes in a new index, also a text it already holds:
an index stands for one occurrence of a name. Indices count from zero in the
order of the calls.
-/

namespace Arbor

/-- The texts taken in so far, and how many there may be. -/
structure SymbolTable where
  entries : Array String := #[]
  /-- The most entries the table takes; none if there is no bound. -/
  capacity : Option Nat := none
  deriving DecidableEq

namespace SymbolTable

/-- The number of entries, which is also the next index. -/
def size (table : SymbolTable) : Nat := table.entries.size

/-- Takes in a text and gives its index. -/
def intern (table : SymbolTable) (text : String) : Except Violation (Nat × SymbolTable) :=
  match table.capacity with
  | some capacity =>
    if capacity ≤ table.size then .error (.symbolCapacityExceeded capacity)
    else .ok (table.size, { table with entries := table.entries.push text })
  | none => .ok (table.size, { table with entries := table.entries.push text })

/-- The text of an index, if it was given out. -/
def lookup (table : SymbolTable) (index : Nat) : Option String := table.entries[index]?

/-- The indices with their texts. -/
def toList (table : SymbolTable) : List (Nat × String) :=
  table.entries.toList.zipIdx.map fun (text, index) => (index, text)

/-- The same table without its entries. -/
def clear (table : SymbolTable) : SymbolTable := { table with entries := #[] }

/-- The table as it is, and what is left when its entries are moved out. -/
def take (table : SymbolTable) : SymbolTable × SymbolTable := (table, table.clear)

/-- The table of the given texts, without a bound. -/
def ofList (texts : List String) : SymbolTable := { entries := texts.toArray }

end SymbolTable

end Arbor
