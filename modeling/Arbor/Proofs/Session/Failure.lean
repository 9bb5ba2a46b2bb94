import Arbor.Engine.Rehearsal
import Arbor.Proofs.Build.Input
import Arbor.Proofs.Session.Judgement

/-!
# What comes after a mark of failure

An engine that has marked the source ill-formed may go on, but it builds nothing any more. Whatever
it calls, the stack, the table and the violation stay what they were (`Workspace.Frozen.after`):
calls that build are accepted, names get no index, and reads go on where they were
(`Workspace.Step.eq_muted`). In the end there is a syntax error, and the table has the names that it
had at the mark (`Session.frozen_of_setError`).

How far the source was read is told by the exchanges, before the mark as after it
(`Workspace.input_after`).
-/

namespace Arbor

/-! ### How far the source was read -/

/-- How many bytes an answer serves. -/
def Answer.servedSize : Answer → Nat
  | served bytes => bytes.size
  | _ => 0

/-- How many bytes the exchanges have served. -/
def Exchange.servedSize : List Exchange → Nat
  | [] => 0
  | x :: exchanges => x.reply.answer.servedSize + servedSize exchanges

namespace Workspace

variable {w w' : Workspace} {c : Call} {a : Answer}

/-- A call takes the channel as many bytes further as it serves. -/
theorem Step.input_eq (h : Step w c a w') :
    w'.input.bytes = w.input.bytes ∧
      w'.input.position = w.input.position + a.servedSize := by
  cases h with
  | read => exact (w.input.read_eq _).2
  | readToEnd => exact w.input.readToEnd_after
  | _ => exact ⟨rfl, rfl⟩

/-- The channel stands behind the bytes that were served. -/
theorem input_after (w : Workspace) (calls : List Call) :
    (w.after calls).input.bytes = w.input.bytes ∧
      (w.after calls).input.position =
        w.input.position + Exchange.servedSize (w.exchanges calls) := by
  induction calls generalizing w with
  | nil => exact ⟨rfl, rfl⟩
  | cons c calls ih =>
    obtain ⟨hbytes, hposition⟩ := ih (w.reply c).2
    obtain ⟨hbytes', hposition'⟩ := (w.step_answer c).input_eq
    refine ⟨hbytes.trans hbytes', hposition.trans ?_⟩
    rw [exchanges, Exchange.servedSize, ← Nat.add_assoc]
    exact congrArg (· + _) hposition'

/-- In a run on a source, what was served is counted from its beginning. -/
theorem input_after_ready (limits : Limits) (source : ByteArray) (calls : List Call) :
    ((ready limits source).after calls).input.bytes = source ∧
      ((ready limits source).after calls).input.position =
        Exchange.servedSize ((ready limits source).exchanges calls) := by
  obtain ⟨hbytes, hposition⟩ := (ready limits source).input_after calls
  exact ⟨hbytes, hposition.trans (Nat.zero_add _)⟩

end Workspace

/-! ### Calls after the mark -/

/-- The answer to a call after a mark of failure, when `position` bytes of the source were
    served. -/
def Call.muted (source : ByteArray) (position : Nat) : Call → Answer
  | build _ => .done
  | intern _ => .interned none
  | read count => .served (source.extract position (position + count))
  | readToEnd => .served (source.extract position source.size)

namespace Workspace

/-- The workspace `now` is marked ill-formed, and has the stack, the table and the violation that
    `w` has. -/
structure Frozen (w now : Workspace) : Prop where
  failed_eq : now.failed = true
  stack_eq : now.stack = w.stack
  symbols_eq : now.symbols = w.symbols
  violation_eq : now.violation = w.violation

variable {w w' now : Workspace} {c : Call} {a : Answer}

theorem Frozen.trans {v : Workspace} (h : v.Frozen w) (h' : w.Frozen now) : v.Frozen now where
  failed_eq := h'.failed_eq
  stack_eq := h'.stack_eq.trans h.stack_eq
  symbols_eq := h'.symbols_eq.trans h.symbols_eq
  violation_eq := h'.violation_eq.trans h.violation_eq

/-- A mark of failure freezes the workspace. -/
theorem frozen_setError (w : Workspace) : w.Frozen (w.reply (.build .setError)).2 :=
  ⟨rfl, rfl, rfl, rfl⟩

/-- After a mark of failure, a call has the answer that is left to it and changes nothing. -/
theorem Step.eq_muted (h : Step w c a w') (hf : w.failed = true) :
    a = c.muted w.input.bytes w.input.position ∧ w.Frozen w' := by
  cases h with
  | ignored | unnamed => exact ⟨rfl, hf, rfl, rfl, rfl⟩
  | marked => exact ⟨rfl, rfl, rfl, rfl, rfl⟩
  | read => exact ⟨congrArg Answer.served (w.input.read_eq _).1, hf, rfl, rfl, rfl⟩
  | readToEnd => exact ⟨congrArg Answer.served w.input.readToEnd_eq, hf, rfl, rfl, rfl⟩
  -- The other cases are those of a workspace without a mark.
  | built hf' | crowded hf' | refused hf' | named hf' | full hf' => rw [hf] at hf'; cases hf'

/-- A workspace that is frozen stays so. -/
theorem Frozen.after (h : w.Frozen now) (calls : List Call) : w.Frozen (now.after calls) :=
  after_induction (P := w.Frozen) h
    (fun v c hv => hv.trans ((v.step_answer c).eq_muted hv.failed_eq).2) calls

/-- In a workspace that is frozen, the reply to a call is told by the call and the bytes served. -/
theorem Frozen.reply_eq (h : w.Frozen now) (c : Call) :
    (now.reply c).1 = ⟨c.muted now.input.bytes now.input.position, w.stack.size, true⟩ := by
  obtain ⟨hanswer, hfrozen⟩ := (now.step_answer c).eq_muted h.failed_eq
  obtain ⟨hfailed, hstack, -, -⟩ := h.trans hfrozen
  change (⟨(now.answer c).1, (now.answer c).2.stack.size, (now.answer c).2.failed⟩ : Reply) = _
  rw [hanswer, hstack, hfailed]

end Workspace

section

variable {before after : List Exchange} {mark : Exchange} (hmark : mark.call = .build .setError)
include hmark

/-- From a mark on, the workspace is frozen as the mark has found it. -/
theorem Workspace.frozen_after_mark (v : Workspace) (before done : List Exchange) :
    (v.after (before.map (·.call))).Frozen (v.after ((before ++ mark :: done).map (·.call))) := by
  rw [List.map_append, List.map_cons, hmark, after_append]
  exact (v.after (before.map (·.call))).frozen_setError.after _

/-- The replies to a mark and to the calls after it, in a run on a source. -/
theorem Workspace.reply_after_mark {limits : Limits} {source : ByteArray} {calls : List Call}
    {done : List Exchange} {x : Exchange}
    (h : (ready limits source).exchanges calls = before ++ mark :: after)
    (hdone : done ++ [x] <+: mark :: after) :
    x.reply = ⟨x.call.muted source (Exchange.servedSize (before ++ done)),
      ((ready limits source).after (before.map (·.call))).stack.size, true⟩ := by
  have hx : before ++ done ++ [x] <+: (ready limits source).exchanges calls := by
    rw [h, List.append_assoc]
    exact (List.prefix_append_right_inj before).2 hdone
  rw [reply_of_exchanges hx]
  cases done with
  | nil =>
    obtain ⟨rfl, -⟩ := List.cons_prefix_cons.1 hdone
    rw [List.append_nil, hmark]
    rfl
  | cons first done =>
    obtain ⟨rfl, -⟩ := List.cons_prefix_cons.1 hdone
    obtain ⟨hbytes, hposition⟩ :=
      input_after_ready limits source ((before ++ first :: done).map (·.call))
    rw [exchanges_map_call ((List.prefix_append _ [x]).trans hx)] at hposition
    rw [(frozen_after_mark hmark _ before done).reply_eq, hbytes, hposition]

end

namespace Session

variable {limits : Limits} {uses : List Use} {engine : Engine} {source : ByteArray}
  {before after : List Exchange} {mark : Exchange}

/-- After a mark of failure the build state is frozen, whatever the engine does and whatever the
    bounds are.

    Let `w` be the workspace that the mark finds. At any time after the mark, the workspace has the
    stack, the table and the violation of `w`, and is marked. The reply to the mark and to every
    call after it is that the call is done, that the name has no index, or the bytes that come next
    in the source, with the mark and the depth of `w`. The run gives a syntax error, and leaves as
    many names as there are in `w`. -/
theorem frozen_of_setError
    (h : (((new limits).after uses).parse engine source).exchanges = before ++ mark :: after)
    (hmark : mark.call = .build .setError) :
    let outcome := ((new limits).after uses).parse engine source
    let w := (Workspace.ready limits source).after (before.map (·.call))
    (∀ done, done <+: after →
        w.Frozen ((Workspace.ready limits source).after ((before ++ mark :: done).map (·.call)))) ∧
      (∀ done x, done ++ [x] <+: mark :: after →
        x.reply =
          ⟨x.call.muted source (Exchange.servedSize (before ++ done)), w.stack.size, true⟩) ∧
        outcome.result = .error .syntaxError ∧ outcome.session.hasError = true ∧
          outcome.session.symbolCount = w.symbols.size := by
  intro outcome w
  obtain ⟨hresult, hworkspace, hx⟩ := parse_after limits uses engine source
  obtain ⟨calls, hcalls, hrun⟩ := engine.exists_calls (.ready limits source)
  have hexchanges : (Workspace.ready limits source).exchanges calls = before ++ mark :: after := by
    rw [← hcalls, ← hx, h]
  have hend : w.Frozen (engine.run (.ready limits source)).workspace := by
    rw [hrun, ← (Workspace.ready limits source).map_call_exchanges calls, hexchanges]
    exact Workspace.frozen_after_mark hmark _ before after
  obtain ⟨-, hfailed, hsize⟩ :=
    (engine.run (.ready limits source)).workspace.conclude_workspace
      (engine.run (.ready limits source)).verdict
  have hsyntax : outcome.result = .error .syntaxError :=
    hresult.trans ((Workspace.conclude_eq_syntaxError_iff _ _).2 hend.failed_eq)
  refine ⟨fun done _ => Workspace.frozen_after_mark hmark _ before done,
    fun done x hdone => Workspace.reply_after_mark hmark hexchanges hdone, hsyntax, ?_, ?_⟩
  · rw [hasError, hworkspace, hfailed, hend.failed_eq]
  · rw [symbolCount, hworkspace, hsize, ← hresult, hsyntax, hend.symbols_eq]

/-- An engine that has filled the stack and the table, and goes on after the mark to build and to
    read. -/
theorem frozen_of_setError_full :
    let steps : List Rehearsal.Step :=
      [.call (.build (.pushSymbol "x")), .call (.read 1), .call (.build .setError),
        .call (.build (.pushSymbol "y")), .call (.build (.reduce .number 2)), .call (.read 4)]
    let source : ByteArray := ⟨#[120, 32, 61]⟩
    let outcome := ((new ⟨some 1, some 1⟩).after []).parse (Rehearsal.engine true steps) source
    let before : List Exchange :=
      [⟨.build (.pushSymbol "x"), .done, 1, false⟩,
        ⟨.read 1, .served (source.extract 0 1), 1, false⟩]
    let mark : Exchange := ⟨.build .setError, .done, 1, true⟩
    let rest : Exchange := ⟨.read 4, .served (source.extract 1 3), 1, true⟩
    let after : List Exchange :=
      [⟨.build (.pushSymbol "y"), .done, 1, true⟩, ⟨.build (.reduce .number 2), .done, 1, true⟩,
        rest]
    outcome.exchanges = before ++ mark :: after ∧ mark.call = .build .setError ∧
      rest.reply = ⟨.served (source.extract 1 5), 1, true⟩ ∧
        outcome.result = .error .syntaxError ∧ outcome.session.symbolCount = 1 := by
  intro steps source outcome before mark rest after
  have h : outcome.exchanges = before ++ mark :: after := rfl
  obtain ⟨-, hreply, hresult, -, hcount⟩ := frozen_of_setError h rfl
  exact ⟨h, rfl, hreply (mark :: after.take 2) rest ⟨[], rfl⟩, hresult, hcount⟩

end Session

end Arbor
