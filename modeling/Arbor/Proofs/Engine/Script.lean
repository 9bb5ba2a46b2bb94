import Arbor.Engine.Script
import Arbor.Proofs.Build.Input
import Arbor.Proofs.Session.Judgement

/-!
# Following a script

A script is followed call by call, up to the first that is refused
(`Workspace.follow`). An engine that makes the calls of a script comes to what
following it comes to (`Engine.conclude_ofScript`). It may read the source before that,
as a replay does, which changes nothing else (`Session.result_parse_of_script`).
-/

namespace Arbor

/-- A call that brings no name and leaves the mark of failure alone. -/
def BuildOp.IsPlain (op : BuildOp) : Prop := op.name? = none ∧ op ≠ .setError

theorem BuildOp.isPlain_pushLeaf (kind : Kind) (value : Int64) : (pushLeaf kind value).IsPlain :=
  ⟨rfl, nofun⟩

theorem BuildOp.isPlain_reduce (kind : Kind) (arity : Nat) : (reduce kind arity).IsPlain :=
  ⟨rfl, nofun⟩

namespace Workspace

/-- Carries out a call that builds; no workspace if it is refused. -/
def attempt (w : Workspace) (op : BuildOp) : Except Violation Workspace :=
  match w.perform op with
  | (.refused v, _) => .error v
  | (_, w) => .ok w

/-- The workspace after the calls of a script, or the first violation. -/
def follow (w : Workspace) : Script → Except Violation Workspace
  | [] => .ok w
  | op :: script => w.attempt op >>= fun w => w.follow script

theorem follow_append (w : Workspace) (s t : Script) :
    w.follow (s ++ t) = w.follow s >>= fun w => w.follow t := by
  induction s generalizing w with
  | nil => rfl
  | cons op s ih =>
    rw [List.cons_append, follow, follow, bind_assoc]
    simp only [ih]

/-- A script that is carried out is so from its first call on. -/
theorem exists_of_follow_cons {w w' : Workspace} {op : BuildOp} {script : Script}
    (h : w.follow (op :: script) = .ok w') :
    ∃ v, w.attempt op = .ok v ∧ v.follow script = .ok w' := by
  rw [follow] at h
  cases ha : w.attempt op with
  | error v => rw [ha] at h; cases h
  | ok v => exact ⟨v, rfl, by rwa [ha] at h⟩

/-- A script that is carried out is so up to each of its calls. -/
theorem exists_of_follow_append {w w' : Workspace} {s t : Script}
    (h : w.follow (s ++ t) = .ok w') : ∃ v, w.follow s = .ok v ∧ v.follow t = .ok w' := by
  rw [follow_append] at h
  cases hs : w.follow s with
  | error v => rw [hs] at h; cases h
  | ok v => exact ⟨v, rfl, by rwa [hs] at h⟩

/-- What an attempt comes to while the source is not marked ill-formed. -/
theorem attempt_eq {w : Workspace} {op : BuildOp} (hf : w.failed = false) (hop : op ≠ .setError) :
    w.attempt op =
      w.symbols.takeIn op.name? >>= fun symbols =>
        (w.stack.perform w.symbols.size op).map fun stack => { w with symbols, stack } := by
  have h : Step w (.build op) (w.perform op).1 (w.perform op).2 := w.step_answer (.build op)
  rw [attempt]
  generalize w.perform op = p at h
  obtain ⟨a, w'⟩ := p
  cases h with
  | ignored hf' => rw [hf] at hf'; cases hf'
  | marked => exact absurd rfl hop
  | built _ _ ht hs => rw [ht, hs]; rfl
  | crowded _ ht => rw [ht]; rfl
  | refused _ ht hs => rw [ht, hs]; rfl

/-- What an attempt that is carried out does to the table and to the stack. -/
theorem attempt_eq_ok {w w' : Workspace} {op : BuildOp} (hf : w.failed = false) (hop : op ≠ .setError)
    (h : w.attempt op = .ok w') :
    w.symbols.takeIn op.name? = .ok w'.symbols ∧
      w.stack.perform w.symbols.size op = .ok w'.stack ∧ w' = { w with
        symbols := w'.symbols, stack := w'.stack } := by
  rw [attempt_eq hf hop] at h
  cases ht : w.symbols.takeIn op.name? with
  | error v => rw [ht] at h; cases h
  | ok symbols =>
    rw [ht] at h
    cases hs : w.stack.perform w.symbols.size op with
    | error v => rw [hs] at h; cases h
    | ok stack =>
      rw [hs] at h
      cases h
      exact ⟨rfl, rfl, rfl⟩

/-- No attempt but that to give up marks the source as ill-formed. -/
theorem failed_of_attempt {w w' : Workspace} {op : BuildOp} (hf : w.failed = false)
    (hop : op ≠ .setError) (h : w.attempt op = .ok w') : w'.failed = false := by
  rw [(attempt_eq_ok hf hop h).2.2]
  exact hf

/-- A plain call concerns the stack alone. -/
theorem attempt_plain {w : Workspace} {op : BuildOp} (hf : w.failed = false) (hp : op.IsPlain) :
    w.attempt op = (w.stack.perform w.symbols.size op).map fun stack => { w with stack } := by
  rw [attempt_eq hf hp.2, hp.1]
  rfl

end Workspace

/-- A call is only refused while the source is not marked ill-formed. -/
theorem Workspace.Step.failed_of_refused {w w' : Workspace} {c : Call} {v : Violation}
    (h : Step w c (.refused v) w') : w'.failed = false := by
  cases h with
  | crowded hf _ => exact hf
  | refused hf _ _ => exact hf
  | full hf _ => exact hf

namespace Engine

/-- A script is made call by call, up to the first that is refused. -/
theorem run_ofScript_cons (op : BuildOp) (script : Script) (w : Workspace) :
    let run := (ofScript (op :: script)).run w
    match w.perform op with
    | (.refused v, w) => run = ⟨[⟨.build op, .refused v, w.stack.size, w.failed⟩], w, some v⟩
    | (a, w) =>
      let rest := (ofScript script).run w
      run = ⟨⟨.build op, a, w.stack.size, w.failed⟩ :: rest.exchanges, rest.workspace,
        rest.verdict⟩ := by
  intro run
  have hr : run = (ofScript (op :: script)).run w := rfl
  rw [ofScript, run_call] at hr
  simp only [Workspace.reply, Workspace.answer] at hr
  generalize w.perform op = p at hr
  obtain ⟨a, w'⟩ := p
  cases a with
  | refused v => exact hr
  | _ => exact hr

/-- A script comes to what following it comes to. -/
theorem conclude_ofScript (script : Script) {w : Workspace} (hv : w.violation = none) :
    let run := (ofScript script).run w
    (run.workspace.conclude run.verdict).1 =
      match w.follow script with
      | .ok w => (w.conclude none).1
      | .error v => .error (.contract v) := by
  induction script generalizing w with
  | nil => rfl
  | cons op script ih =>
    -- A refusal stops the engine, and is the first violation that was kept.
    have hr := run_ofScript_cons op script w
    have h : w.Step (.build op) (w.perform op).1 (w.perform op).2 := w.step_answer (.build op)
    simp only [Workspace.follow, Workspace.attempt]
    generalize w.perform op = p at hr h
    obtain ⟨a, w'⟩ := p
    have hv' := h.violation_eq
    rw [hv, Option.none_or] at hv'
    cases a with
    | refused v =>
      rw [hr, Workspace.conclude, h.failed_of_refused, hv']
      rfl
    | _ =>
      rw [hr]
      exact ih hv'

end Engine

namespace Session

/-- An engine that reads the source and then makes the calls of a script comes to what
    following the script comes to. -/
theorem result_parse_of_script (limits : Limits) (uses : List Use) {next : Reply → Engine}
    {script : Script} {source : ByteArray}
    (h : ∀ reply : Reply, reply.answer = .served source → next reply = .ofScript script) :
    ∃ input, (((new limits).after uses).parse (.call .readToEnd next) source).result =
      match ({ Workspace.new limits with input } : Workspace).follow script with
      | .ok w => (w.conclude none).1
      | .error v => .error (.contract v) := by
  refine ⟨(Workspace.ready limits source).input.readToEnd.2, ?_⟩
  have hread : ((Workspace.ready limits source).reply .readToEnd).1.answer = .served source :=
    congrArg Answer.served (InputChannel.readToEnd_ofBytes source)
  rw [(parse_after limits uses _ source).1, Engine.run_call, h _ hread]
  exact Engine.conclude_ofScript script rfl

/-- A replay in a session comes to what following its script comes to. -/
theorem parse_replay (limits : Limits) (uses : List Use) (script : Script) (source : ByteArray) :
    ∃ input, (((new limits).after uses).parse (.replay script) source).result =
      match ({ Workspace.new limits with input } : Workspace).follow script with
      | .ok w => (w.conclude none).1
      | .error v => .error (.contract v) :=
  result_parse_of_script limits uses fun _ _ => rfl

end Session

end Arbor
