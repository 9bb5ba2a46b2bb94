import Arbor.Engine
import Arbor.ParseTree

/-!
# Sessions

A session runs one engine after the other, each on a workspace that holds nothing
of the runs before it. What a run comes to is decided in this order:

* the source was marked ill-formed: a syntax error, whatever else happened;
* a call was refused: the first such violation, also if the engine went on;
* the engine finished with a violation: that one;
* the stack holds other than one tree: a violation as well;
* otherwise the tree on the stack, together with the symbol table.
-/

namespace Arbor

/-- Bounds on the workspace of a session; none for no bound. -/
structure Limits where
  maxStackDepth : Option Nat := some 1024
  maxSymbols : Option Nat := some 1024
  deriving DecidableEq

namespace Limits

def unbounded : Limits := ⟨none, none⟩

end Limits

/-- Why there is no parse tree. -/
inductive ParseError
  /-- The source is ill-formed. -/
  | syntaxError
  /-- The engine broke the build protocol. -/
  | contract (v : Violation)
  deriving DecidableEq

namespace ParseError

def message : ParseError → String
  | syntaxError => "syntax error"
  | contract v => s!"grammar engine contract violation: {v.message}"

/-- A fault of the engine rather than of the source. -/
def isFatal : ParseError → Bool
  | syntaxError => false
  | contract _ => true

end ParseError

namespace Workspace

/-- The workspace a session starts with. -/
def new (limits : Limits) : Workspace :=
  { stack := .ofCapacity limits.maxStackDepth
    symbols := { capacity := limits.maxSymbols } }

/-- The workspace without anything an engine did. The capacities stay. -/
def reset (w : Workspace) : Workspace :=
  { stack := w.stack.clear
    symbols := w.symbols.clear }

/-- The workspace with its stack emptied. -/
def dropStack (w : Workspace) : Workspace := { w with stack := w.stack.clear }

/-- What a run came to, and the workspace it leaves. The stack is emptied in any
    case, and the symbol table moves into the parse tree. -/
def conclude (w : Workspace) (verdict : Option Violation) :
    Except ParseError ParseTree × Workspace :=
  if w.failed then (.error .syntaxError, w.dropStack)
  else
    match w.violation.or verdict with
    | some v => (.error (.contract v), { w.dropStack with violation := none })
    | none =>
      match w.stack.nodes with
      | [root] =>
        let (symbols, rest) := w.symbols.take
        (.ok ⟨root, symbols⟩, { w.dropStack with symbols := rest })
      | nodes => (.error (.contract (.invalidFinalStack nodes.length)), w.dropStack)

end Workspace

/-- A place to run engines in. -/
structure Session where
  limits : Limits := {}
  workspace : Workspace := .new limits

/-- What running an engine in a session gave. -/
structure Outcome where
  result : Except ParseError ParseTree
  session : Session
  /-- The exchanges of the run. -/
  exchanges : List Exchange

namespace Session

def new (limits : Limits) : Session := { limits }

/-- The session as it was made. -/
def reset (s : Session) : Session := { s with workspace := s.workspace.reset }

/-- Runs an engine on a source. -/
def parse (s : Session) (engine : Engine) (source : ByteArray) : Outcome :=
  let run := engine.run { s.workspace.reset with input := .ofBytes source }
  let (result, workspace) := run.workspace.conclude run.verdict
  ⟨result, { s with workspace }, run.exchanges⟩

/-- Whether the last source was marked ill-formed. -/
def hasError (s : Session) : Bool := s.workspace.failed

/-- How many trees are on the stack. -/
def depth (s : Session) : Nat := s.workspace.stack.size

/-- How many names the last run took in that did not go into a parse tree. -/
def symbolCount (s : Session) : Nat := s.workspace.symbols.size

end Session

end Arbor
