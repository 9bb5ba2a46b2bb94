import Arbor.Build.SymbolTable
import Arbor.Fault
import Arbor.Integer
import Arbor.Node

/-!
# Parse trees

A parse tree is a tree with the symbol table that its symbols are indices of.
Asking for the text of a node that is no symbol, or whose index the table did not
give out, is a mistake of the asker: `symbolText` answers it with a `Fault`, and
`symbolText?` with none.
-/

namespace Arbor

/-- A tree and the names its symbols stand for. -/
structure ParseTree where
  root : Node
  symbols : SymbolTable := {}
  deriving DecidableEq

namespace SymbolTable

/-- The text of the index that a value stands for. -/
def lookupValue (table : SymbolTable) (value : Int64) : Option String :=
  (Integer.index? value).bind table.lookup

end SymbolTable

namespace ParseTree

/-- The name of a symbol, if the node is one and the table has it. -/
def symbolText? (tree : ParseTree) (node : Node) : Option String :=
  if node.kind = .symbol then tree.symbols.lookupValue node.value else none

/-- The name of a symbol. -/
def symbolText (tree : ParseTree) (node : Node) : Except Fault String :=
  if node.kind = .symbol then
    match tree.symbolText? node with
    | some text => .ok text
    | none => .error (.notInterned node.value tree.symbols.size)
  else .error (.notASymbol node.kind)

end ParseTree

namespace Node

/-- The child of a given position. -/
def child (node : Node) (index : Nat) : Except Fault Node :=
  match node.children[index]? with
  | some child => .ok child
  | none => .error (.childOutOfRange index node.kind node.childCount)

/-- The node that a path of positions leads to. -/
def follow (node : Node) : List Nat → Except Fault Node
  | [] => .ok node
  | index :: path => do (← node.child index).follow path

end Node

end Arbor
