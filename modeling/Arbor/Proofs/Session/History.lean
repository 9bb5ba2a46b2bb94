import Arbor.Proofs.Build.Stack

/-!
# The history of a session

A session is used again and again: reset, or made to run some engine on some
source. Whatever was done with it, its workspace keeps the bounds it was made
with, and so the next run begins in the same workspace as that of a new session
(`Session.parse_after`). Nothing of the past shows in what comes of it
(`Session.parse_after_eq_parse_new`).
-/

namespace Arbor

namespace Workspace

variable {w w' : Workspace} {c : Call} {a : Answer}

/-- The bounds that a workspace was made with. -/
def limits (w : Workspace) : Limits := ⟨w.stack.capacity, w.symbols.capacity⟩

/-- The workspace that a session with these limits runs an engine in. -/
def ready (limits : Limits) (source : ByteArray) : Workspace :=
  { Workspace.new limits with input := .ofBytes source }

theorem reset_eq_new (w : Workspace) : w.reset = .new w.limits := rfl

/-- No call changes the bounds. -/
theorem Step.limits_eq (h : Step w c a w') : w'.limits = w.limits := by
  have table {name : Option String} {t : SymbolTable} (ht : w.symbols.takeIn name = .ok t) :
      t.capacity = w.symbols.capacity := by
    rw [(SymbolTable.takeIn_eq_ok_iff.1 ht).2]
  cases h with
  | built _ hop ht hs =>
    obtain ⟨_, _, -, -, hc, -⟩ := BuildStack.exists_of_perform hop hs
    rw [limits, hc, table ht, limits]
  | refused _ ht _ => rw [limits, latch, table ht, limits]
  | named _ ht => rw [limits, table ht, limits]
  | _ => rfl

theorem limits_reply (w : Workspace) (c : Call) : (w.reply c).2.limits = w.limits :=
  (w.step_answer c).limits_eq

theorem limits_after (w : Workspace) (calls : List Call) : (w.after calls).limits = w.limits :=
  after_induction (P := (·.limits = w.limits)) rfl
    (fun v c hv => (v.limits_reply c).trans hv) calls

theorem limits_conclude (w : Workspace) (verdict : Option Violation) :
    (w.conclude verdict).2.limits = w.limits := by
  unfold conclude
  split
  · rfl
  · split
    · rfl
    · split <;> rfl

end Workspace

namespace Session

/-- What can be done with a session. -/
inductive Use
  | reset
  | parse (engine : Engine) (source : ByteArray)

/-- The session after one use. -/
def use (s : Session) : Use → Session
  | .reset => s.reset
  | .parse engine source => (s.parse engine source).session

/-- The session after any uses, the first one first. -/
def after (s : Session) (uses : List Use) : Session := uses.foldl use s

theorem limits_use (s : Session) (u : Use) : (s.use u).workspace.limits = s.workspace.limits := by
  cases u with
  | reset => rfl
  | parse engine source =>
    obtain ⟨calls, -, hw⟩ := engine.exists_calls { s.workspace.reset with input := .ofBytes source }
    simp only [use, parse, Workspace.limits_conclude, hw, Workspace.limits_after]
    rfl

theorem limits_after (s : Session) (uses : List Use) :
    (s.after uses).workspace.limits = s.workspace.limits := by
  induction uses generalizing s with
  | nil => rfl
  | cons u uses ih => exact (ih (s.use u)).trans (s.limits_use u)

/-- Every run begins in the workspace of a new session. -/
theorem reset_after (limits : Limits) (uses : List Use) :
    ((new limits).after uses).workspace.reset = .new limits := by
  rw [Workspace.reset_eq_new, limits_after]
  rfl

/-- Whatever a session was used for, it runs an engine as a new one does. -/
theorem parse_after (limits : Limits) (uses : List Use) (engine : Engine) (source : ByteArray) :
    let run := engine.run (.ready limits source)
    let outcome := ((new limits).after uses).parse engine source
    outcome.result = (run.workspace.conclude run.verdict).1 ∧
      outcome.session.workspace = (run.workspace.conclude run.verdict).2 ∧
        outcome.exchanges = run.exchanges := by
  simp only [parse, reset_after]
  exact ⟨rfl, rfl, rfl⟩

/-- A session that is reset does not show that it has run an engine. -/
theorem reset_parse (s : Session) (engine : Engine) (source : ByteArray) :
    (s.parse engine source).session.reset = s.reset := by
  have hlimits : (s.parse engine source).session.workspace.limits = s.workspace.limits :=
    s.limits_use (.parse engine source)
  rw [reset, Workspace.reset_eq_new, hlimits]
  rfl

/-- The limits of a session stay as they were given. -/
theorem limits_after_new (limits : Limits) (uses : List Use) :
    ((new limits).after uses).limits = limits := by
  have huse (s : Session) (u : Use) : (s.use u).limits = s.limits := by cases u <;> rfl
  have hafter (s : Session) : (s.after uses).limits = s.limits := by
    induction uses generalizing s with
    | nil => rfl
    | cons u uses ih => exact (ih (s.use u)).trans (huse s u)
  exact hafter (new limits)

/-- Sessions have no memory. Whatever a session was used for, running an engine on a source
    has the outcome that it has in a new session with the same limits: the same result, with
    the same bound on its symbol table, the same answer to every call, and the same session
    afterwards, with its mark of failure, its stack and its table. -/
theorem parse_after_eq_parse_new (limits : Limits) (uses : List Use) (engine : Engine)
    (source : ByteArray) :
    ((new limits).after uses).parse engine source = (new limits).parse engine source := by
  have hreset : ((new limits).after uses).workspace.reset = (new limits).workspace.reset :=
    reset_after limits uses
  simp only [parse, hreset, limits_after_new]
  rfl

end Session

end Arbor
