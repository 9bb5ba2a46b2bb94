import Arbor.Build.Input
import Arbor.Build.Stack
import Arbor.Build.SymbolTable

/-!
# The workspace of an engine

A running engine works on a stack, a symbol table and an input channel, through
the calls of `Call`. Two marks go with them. `failed` says that the engine found
the source ill-formed: from then on calls that build are accepted and do nothing,
while reads go on. `violation` keeps the first violation of the protocol that a
call ran into, whether or not the engine minds.
-/

namespace Arbor

/-- A call that builds, or gives up. -/
inductive BuildOp
  | pushLeaf (kind : Kind) (value : Int64)
  | pushNumber (value : Int64)
  | pushBoolean (value : Bool)
  /-- Takes in a name and pushes the leaf for its index. -/
  | pushSymbol (name : String)
  | pushNil
  | reduce (kind : Kind) (arity : Nat)
  /-- Marks the source as ill-formed. -/
  | setError
  deriving DecidableEq

/-- A call an engine may make. -/
inductive Call
  | build (op : BuildOp)
  /-- Takes in a name without pushing anything. -/
  | intern (name : String)
  /-- Reads up to so many bytes. -/
  | read (count : Nat)
  | readToEnd
  deriving DecidableEq

/-- What a call gives back. -/
inductive Answer
  | done
  /-- The index of a name; none after a mark of failure. -/
  | interned (index : Option Nat)
  | served (bytes : ByteArray)
  | refused (violation : Violation)

/-- Everything a running engine may change. -/
structure Workspace where
  stack : BuildStack := .ofCapacity none
  symbols : SymbolTable := {}
  input : InputChannel := .ofBytes .empty
  failed : Bool := false
  violation : Option Violation := none

namespace Workspace

/-- Keeps a violation, unless an earlier one is kept. -/
def latch (w : Workspace) (v : Violation) : Workspace :=
  { w with violation := some (w.violation.getD v) }

/-- Carries out a change of the stack, unless the source is marked ill-formed. -/
def build (w : Workspace) (change : BuildStack → Except Violation BuildStack) :
    Answer × Workspace :=
  if w.failed then (.done, w)
  else
    match change w.stack with
    | .ok stack => (.done, { w with stack })
    | .error v => (.refused v, w.latch v)

/-- Takes in a name, unless the source is marked ill-formed. -/
def intern (w : Workspace) (name : String) : Answer × Workspace :=
  if w.failed then (.interned none, w)
  else
    match w.symbols.intern name with
    | .ok (index, symbols) => (.interned (some index), { w with symbols })
    | .error v => (.refused v, w.latch v)

/-- Takes in a name and pushes the leaf of its index. The name stays when there is
    no room for the leaf. -/
def pushSymbol (w : Workspace) (name : String) : Answer × Workspace :=
  match w.intern name with
  | (.interned (some index), w) => w.build (·.pushLeaf .symbol (Int64.ofNat index))
  | (.interned none, w) => (.done, w)
  | answer => answer

/-- Carries out a call that builds. -/
def perform (w : Workspace) : BuildOp → Answer × Workspace
  | .pushLeaf kind value => w.build (·.pushLeaf kind value)
  | .pushNumber value => w.build (·.pushLeaf .number value)
  | .pushBoolean value => w.build (·.pushLeaf .boolean (if value then 1 else 0))
  | .pushSymbol name => w.pushSymbol name
  | .pushNil => w.build (·.pushNil)
  | .reduce kind arity => w.build (·.reduce kind arity)
  | .setError => (.done, { w with failed := true })

/-- Carries out a call. -/
def answer (w : Workspace) : Call → Answer × Workspace
  | .build op => w.perform op
  | .intern name => w.intern name
  | .read count =>
    let (bytes, input) := w.input.read count
    (.served bytes, { w with input })
  | .readToEnd =>
    let (bytes, input) := w.input.readToEnd
    (.served bytes, { w with input })

end Workspace

end Arbor
