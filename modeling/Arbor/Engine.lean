import Arbor.Build.Workspace

/-!
# Engines

An engine recognises a source by making calls on a workspace. It decides on each
call by the replies to the earlier ones, and at last it finishes, perhaps with a
violation of its own. So an engine is a tree: a call, and for every reply the
engine that goes on from there. `Engine.run` takes the way through the tree that
a workspace leads to, and keeps the exchanges made on it; whatever is said of all
engines is said of all such ways.
-/

namespace Arbor

/-- What an engine learns from a call: its answer, how many trees are on the stack
    afterwards, and whether the source is marked ill-formed. -/
structure Reply where
  answer : Answer
  depth : Nat
  failed : Bool

/-- A recogniser, seen as the calls it makes. -/
inductive Engine
  /-- Stops, with a violation to report or without. -/
  | finish (verdict : Option Violation)
  /-- Makes a call and goes on by the reply. -/
  | call (call : Call) (next : Reply → Engine)

/-- A call together with its reply. -/
structure Exchange where
  call : Call
  reply : Reply

/-- What became of an engine on a workspace. -/
structure Run where
  /-- The exchanges, in order. -/
  exchanges : List Exchange
  /-- The workspace afterwards. -/
  workspace : Workspace
  /-- The violation the engine finished with. -/
  verdict : Option Violation

namespace Workspace

/-- Carries out a call and tells the engine how things stand. -/
def reply (w : Workspace) (c : Call) : Reply × Workspace :=
  let (answer, w) := w.answer c
  (⟨answer, w.stack.size, w.failed⟩, w)

end Workspace

namespace Engine

/-- Runs the engine on a workspace, after the exchanges `past` (the last one first). -/
def runAfter (past : List Exchange) : Engine → Workspace → Run
  | finish verdict, w => ⟨past.reverse, w, verdict⟩
  | call c next, w =>
    let (reply, w) := w.reply c
    (next reply).runAfter (⟨c, reply⟩ :: past) w

/-- Runs the engine on a workspace. -/
def run (engine : Engine) (w : Workspace) : Run := engine.runAfter [] w

end Engine

end Arbor
