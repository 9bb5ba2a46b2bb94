import Arbor.ParseTree
import Arbor.Text.Quoted

/-!
# Expectations of trees

An expectation is a demand on a node: on its kind, its value, its name, its children,
or on one of its children. A list of expectations is checked in order, and the first
that is not met is reported with the path from the root to the node where it failed.
-/

namespace Arbor

/-- A demand on a node. -/
inductive Expectation
  | kind (kind : Kind)
  | value (value : Int64)
  | childCount (count : Nat)
  /-- A childless number of this value. -/
  | number (value : Int64)
  /-- A childless boolean of this value. -/
  | boolean (value : Bool)
  /-- A childless nil of any value. -/
  | nil
  /-- A childless symbol of this name. -/
  | symbol (name : String)
  /-- The kinds of all children, in order. -/
  | childKinds (kinds : List Kind)
  /-- Demands on one of the children. -/
  | child (index : Nat) (demands : List Expectation)

/-- How a node differs from what was expected. -/
inductive Discrepancy
  | kind (expected found : Kind)
  | value (expected found : Int64)
  | childCount (expected found : Nat)
  | symbol (expected found : String)
  | childKinds (expected found : List Kind)
  /-- There is no such child. -/
  | noChild (index children : Nat)
  /-- A symbol without a name. -/
  | unresolved (fault : Fault)
  deriving DecidableEq

/-- A discrepancy at a node. -/
structure Mismatch where
  /-- The positions on the way from the root. -/
  path : List Nat
  what : Discrepancy
  deriving DecidableEq

namespace Mismatch

/-- The way from the root, as it is shown. -/
def place (path : List Nat) : String :=
  "root" ++ String.join (path.map fun index => s!"[{index}]")

/-- Kinds in a row, as they are shown. -/
def kinds (kinds : List Kind) : String := "[" ++ ", ".intercalate (kinds.map Kind.name) ++ "]"

def message (m : Mismatch) : String :=
  let spot := place m.path
  match m.what with
  | .kind expected found =>
    Fault.comparison s!"{spot}: expected {expected.name} node, found {found.name}"
      found.name expected.name
  | .value expected found =>
    let expected := Integer.text expected
    let found := Integer.text found
    Fault.comparison s!"{spot}: expected value {expected}, found {found}" found expected
  | .childCount expected found =>
    Fault.comparison s!"{spot}: expected {expected} children, found {found}"
      (toString found) (toString expected)
  | .symbol expected found =>
    let expected := Text.quote expected
    let found := Text.quote found
    Fault.comparison s!"{spot}: expected symbol {expected}, found {found}" found expected
  | .childKinds expected found =>
    Fault.comparison s!"{spot}: unexpected child types" (kinds found) (kinds expected)
  | .noChild index children => s!"{spot}: child index {index} out of bounds ({children} children)"
  | .unresolved fault => fault.message

end Mismatch

namespace Expectation

/-! ### Single demands -/

def expectKind (expected : Kind) (node : Node) : Except Discrepancy Unit :=
  if node.kind = expected then .ok () else .error (.kind expected node.kind)

def expectValue (expected : Int64) (node : Node) : Except Discrepancy Unit :=
  if node.value = expected then .ok () else .error (.value expected node.value)

def expectChildCount (expected : Nat) (node : Node) : Except Discrepancy Unit :=
  if node.childCount = expected then .ok () else .error (.childCount expected node.childCount)

def expectName (expected : String) (tree : ParseTree) (node : Node) : Except Discrepancy Unit :=
  match tree.symbolText node with
  | .ok found => if found = expected then .ok () else .error (.symbol expected found)
  | .error fault => .error (.unresolved fault)

def expectChildKinds (expected : List Kind) (node : Node) : Except Discrepancy Unit :=
  let found := node.children.map Node.kind
  if found = expected then .ok () else .error (.childKinds expected found)

/-- A childless node of a kind. -/
def expectLeaf (kind : Kind) (node : Node) : Except Discrepancy Unit := do
  expectKind kind node
  expectChildCount 0 node

/-- A childless node of a kind and a value. -/
def expectLiteral (kind : Kind) (value : Int64) (node : Node) : Except Discrepancy Unit := do
  expectKind kind node
  expectValue value node
  expectChildCount 0 node

/-! ### Checking -/

/-- A discrepancy at the node that a path leads to. -/
def locate (path : List Nat) (result : Except Discrepancy Unit) : Except Mismatch Unit :=
  result.mapError (⟨path, ·⟩)

mutual

/-- Checks a demand on the node that a path leads to. -/
def check (tree : ParseTree) (path : List Nat) (node : Node) : Expectation → Except Mismatch Unit
  | kind expected => locate path (expectKind expected node)
  | value expected => locate path (expectValue expected node)
  | childCount expected => locate path (expectChildCount expected node)
  | number expected => locate path (expectLiteral .number expected node)
  | boolean expected => locate path (expectLiteral .boolean (if expected then 1 else 0) node)
  | nil => locate path (expectLeaf .nil node)
  | symbol expected =>
    locate path do
      expectLeaf .symbol node
      expectName expected tree node
  | childKinds expected => locate path (expectChildKinds expected node)
  | child index demands =>
    match node.children[index]? with
    | some below => checkAll tree (path ++ [index]) below demands
    | none => .error ⟨path, .noChild index node.childCount⟩

/-- Checks demands one after the other, up to the first that is not met. -/
def checkAll (tree : ParseTree) (path : List Nat) (node : Node) :
    List Expectation → Except Mismatch Unit
  | [] => .ok ()
  | demand :: rest => do
    check tree path node demand
    checkAll tree path node rest

end

end Expectation

namespace ParseTree

/-- Checks demands on the root. -/
def expect (tree : ParseTree) (demands : List Expectation) : Except Mismatch Unit :=
  Expectation.checkAll tree [] tree.root demands

end ParseTree

end Arbor
