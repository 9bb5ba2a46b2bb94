import Arbor.ParseTree

/-!
# Snapshots

A snapshot is a copy of a parse tree that stands for itself: symbols carry their
names, where the symbol table has them, and no longer need the table. Trees are
shown and written by way of their snapshots.
-/

namespace Arbor

/-- A tree whose symbols carry their names. -/
inductive Snapshot
  | mk (kind : Kind) (value : Int64) (symbol : Option String) (children : List Snapshot)

namespace Snapshot

def kind : Snapshot → Kind
  | mk kind _ _ _ => kind

def value : Snapshot → Int64
  | mk _ value _ _ => value

/-- The name of a symbol. -/
def symbol : Snapshot → Option String
  | mk _ _ symbol _ => symbol

def children : Snapshot → List Snapshot
  | mk _ _ _ children => children

mutual

/-- The snapshot of a node. -/
def ofNode (symbols : SymbolTable) : Node → Snapshot
  | .mk kind value children =>
    mk kind value (if kind = .symbol then symbols.lookupValue value else none)
      (ofNodes symbols children)

/-- The snapshots of a row of nodes. -/
def ofNodes (symbols : SymbolTable) : List Node → List Snapshot
  | [] => []
  | node :: nodes => ofNode symbols node :: ofNodes symbols nodes

end

/-- The snapshot of a parse tree. -/
def ofTree (tree : ParseTree) : Snapshot := ofNode tree.symbols tree.root

mutual

/-- The snapshot and all below it, each before its children. -/
def preorder : Snapshot → List Snapshot
  | mk kind value symbol children => mk kind value symbol children :: preorders children

/-- The snapshots of a row, and all below them. -/
def preorders : List Snapshot → List Snapshot
  | [] => []
  | s :: rest => s.preorder ++ preorders rest

end

/-- What is shown for a node: its kind, and if `showValues`, what a leaf holds. A
    symbol without a name shows its index. -/
def label (showValues : Bool) (s : Snapshot) : String :=
  if showValues then
    match s.kind with
    | .number => s!"Number {Integer.text s.value}"
    | .boolean => if s.value = 0 then "Boolean false" else "Boolean true"
    | .symbol =>
      match s.symbol with
      | some name => s!"Symbol {name}"
      | none => s!"Symbol #{Integer.text s.value}"
    | kind => kind.name
  else s.kind.name

end Snapshot

end Arbor
