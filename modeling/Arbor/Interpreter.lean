import Arbor.Engine.Grammar
import Arbor.Evaluation
import Arbor.Session

/-!
# Interpreters

An interpreter takes statements one by one: each is parsed by the expression
grammar in the same session, and evaluated with the names that the statements
before it have bound.
-/

namespace Arbor

/-- Why a statement has no value. -/
inductive StatementError
  | parse (error : ParseError)
  | eval (error : EvalError)
  deriving DecidableEq

namespace StatementError

def message : StatementError → String
  | parse error => error.message
  | eval error => error.message

/-- A fault of the interpreter's set-up rather than of the statement. -/
def isFatal : StatementError → Bool
  | parse error => error.isFatal
  | eval _ => false

end StatementError

/-- The expression grammar, a session to run it in, and the names bound so far. -/
structure Interpreter where
  bounds : Bounds := {}
  session : Session := {}
  names : Namespace := {}

namespace Interpreter

/-- Evaluates a tree. -/
def evaluate (i : Interpreter) (tree : ParseTree) : Except EvalError Value × Interpreter :=
  let (result, names) := tree.evaluate i.names
  (result, { i with names })

/-- Parses and evaluates a statement. -/
def interpret (i : Interpreter) (source : String) : Except StatementError Value × Interpreter :=
  let outcome := i.session.parse (.ofGrammar i.bounds) source.toUTF8
  let i := { i with session := outcome.session }
  match outcome.result with
  | .ok tree =>
    let (result, i) := i.evaluate tree
    (result.mapError .eval, i)
  | .error error => (.error (.parse error), i)

end Interpreter

end Arbor
