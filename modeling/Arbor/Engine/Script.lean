import Arbor.Engine

/-!
# Engines that follow a script

A script is a list of calls that build. `Engine.ofScript` makes them one after
the other and finishes with the first violation. A `Replay` is such an engine
behind a read of the whole source, which remembers from its last run what it
read, and counts its runs.
-/

namespace Arbor

/-- The calls an engine is to make, in order. -/
abbrev Script := List BuildOp

namespace Engine

/-- Makes the calls of the script up to the first that is refused. -/
def ofScript : Script → Engine
  | [] => finish none
  | op :: rest =>
    call (.build op) fun reply =>
      match reply.answer with
      | .refused v => finish (some v)
      | _ => ofScript rest

/-- Reads all of the source and then makes the calls of the script. -/
def replay (script : Script) : Engine := call .readToEnd fun _ => ofScript script

end Engine

/-- A script with a memory of its last run. -/
structure Replay where
  script : Script := []
  /-- What the last run read. -/
  consumed : ByteArray := .empty
  /-- How many runs there were. -/
  runs : Nat := 0

namespace Replay

def engine (r : Replay) : Engine := .replay r.script

/-- The bytes a run read first. -/
def firstRead : List Exchange → ByteArray
  | ⟨_, ⟨.served bytes, _, _⟩⟩ :: _ => bytes
  | _ => .empty

/-- The script after one more run. -/
def after (r : Replay) (run : List Exchange) : Replay :=
  { r with consumed := firstRead run, runs := r.runs + 1 }

/-- The same memory with another script. -/
def setScript (r : Replay) (script : Script) : Replay := { r with script }

end Replay

end Arbor
