import Arbor.Interpreter
import Arbor.Text.Blank
import Arbor.Text.Lines

/-!
# Dialogues

In a dialogue an interpreter answers one line after the other. Blank lines are passed
over. A line may fail, and the dialogue goes on with the next one; but a fault of the
interpreter's set-up ends it.
-/

namespace Arbor

/-- What comes of a line. -/
inductive Response
  /-- The line is blank. -/
  | skip
  | value (value : Value)
  | failure (error : StatementError)
  deriving DecidableEq

namespace Response

/-- The line that is shown for it. -/
def text : Response → String
  | skip => ""
  | value v => v.text ++ "\n"
  | failure e => s!"error: {e.message}\n"

/-- The error that ends a dialogue. -/
def breach? : Response → Option StatementError
  | failure e => if e.isFatal then some e else none
  | _ => none

end Response

/-- What comes of all lines. -/
structure Dialogue where
  responses : List Response
  /-- The error that ended the dialogue before the lines did. -/
  breach : Option StatementError
  deriving DecidableEq

namespace Interpreter

/-- What comes of a line, and the interpreter afterwards. -/
def respond (i : Interpreter) (line : String) : Response × Interpreter :=
  if Text.isAllBlank line then (.skip, i)
  else
    match i.interpret line with
    | (.ok v, i) => (.value v, i)
    | (.error e, i) => (.failure e, i)

/-- The dialogue over lines. -/
def converse (i : Interpreter) : List String → Dialogue
  | [] => ⟨[], none⟩
  | line :: rest =>
    let (response, i) := i.respond line
    match response.breach? with
    | some e => ⟨[], some e⟩
    | none =>
      let d := converse i rest
      ⟨response :: d.responses, d.breach⟩

end Interpreter

end Arbor
