import Arbor.Proofs.Build.Stack
import Arbor.Proofs.Session.Judgement

/-!
# Calls that are refused

A call that cannot be carried out leaves the workspace as it was, apart from two things: the first
violation is kept, and the name of a symbol stays in the table if there was room for it and none on
the stack for its leaf (`Workspace.Step.of_refused`). An engine may thus go on after a refusal as if
it had not made the call.

A reduction is refused only for its kind or for want of trees, in this order, and does what it says
otherwise (`Workspace.answer_reduce`).
-/

namespace Arbor

/-- The table that a refused call leaves. The name of a symbol went in before the stack was found
    to have no room for its leaf. -/
def SymbolTable.afterRefusal (table : SymbolTable) : Call → Violation → SymbolTable
  | .build (.pushSymbol name), .stackOverflow _ =>
    { table with entries := table.entries.push name }
  | _, _ => table

/-- For want of room in the table, nothing is left there. -/
theorem SymbolTable.afterRefusal_of_takeIn {table : SymbolTable} {name : Option String}
    {v : Violation} (h : table.takeIn name = .error v) (c : Call) :
    table.afterRefusal c v = table := by
  obtain ⟨-, capacity, -, -, rfl⟩ := takeIn_eq_error_iff.1 h
  unfold afterRefusal
  split
  · next h => cases h
  · rfl

namespace Workspace

variable {w w' : Workspace} {c : Call} {v : Violation}

/-- For want of room on the stack, the name of a symbol is left in the table. -/
theorem afterRefusal_of_perform {op : BuildOp} {symbols : SymbolTable}
    (ht : w.symbols.takeIn op.name? = .ok symbols)
    (hs : w.stack.perform w.symbols.size op = .error v) :
    symbols = w.symbols.afterRefusal (.build op) v := by
  rw [(SymbolTable.takeIn_eq_ok_iff.1 ht).2]
  cases op with
  | pushSymbol name =>
    -- Symbols are leaves, so that only room can be wanting.
    obtain ⟨capacity, -, -, rfl⟩ := BuildStack.pushLeaf_eq_error_iff.1 hs
    simp [SymbolTable.afterRefusal, BuildOp.name?]
  | _ => simp [SymbolTable.afterRefusal, BuildOp.name?]

/-- A call that is refused changes nothing but the table and the violation. -/
theorem Step.of_refused (h : Step w c (.refused v) w') :
    w'.stack = w.stack ∧ w'.input = w.input ∧ w'.failed = w.failed ∧
      w'.symbols = w.symbols.afterRefusal c v := by
  cases h with
  | crowded _ ht => exact ⟨rfl, rfl, rfl, (SymbolTable.afterRefusal_of_takeIn ht _).symm⟩
  | refused _ ht hs => exact ⟨rfl, rfl, rfl, afterRefusal_of_perform ht hs⟩
  | full _ ht => exact ⟨rfl, rfl, rfl, (SymbolTable.afterRefusal_of_takeIn ht _).symm⟩

/-- Without a mark of failure, a reduction is what it is on the stack. -/
theorem answer_reduce (hw : w.failed = false) (kind : Kind) (arity : Nat) :
    w.answer (.build (.reduce kind arity)) =
      match w.stack.reduce kind arity with
      | .ok stack => (.done, { w with stack })
      | .error v => (.refused v, w.latch v) := by
  change w.build (·.reduce kind arity) = _
  exact if_neg (Bool.eq_false_iff.1 hw)

/-- A reduction is refused exactly if the stack refuses it. -/
theorem answer_reduce_eq_refused_iff (hw : w.failed = false) {kind : Kind} {arity : Nat} :
    (∃ w', w.answer (.build (.reduce kind arity)) = (.refused v, w')) ↔
      w.stack.reduce kind arity = .error v := by
  rw [answer_reduce hw]
  cases w.stack.reduce kind arity <;> simp

/-- A refused call has no effect on what is built, and a reduction is refused for a reason.

    Without a mark of failure, a call that is refused with `v` leaves the stack, the channel and
    the mark as they were, and the table too, except that a symbol with no room for its leaf leaves
    its name there. The first violation of all is kept. A reduction to a leaf of one child or more
    is refused as such, any other exactly if it asks for more trees than there are, and it is told
    how many there are. If it is carried out, the trees below those it asks for stay, and on top of
    them is one tree that has just these as its children, in their order. -/
theorem refused_call_keeps (hw : w.failed = false) :
    (∀ c v w', w.answer c = (.refused v, w') →
        w'.stack = w.stack ∧ w'.input = w.input ∧ w'.failed = false ∧
          w'.symbols = w.symbols.afterRefusal c v ∧ w'.violation = w.violation.or (some v)) ∧
      ∀ kind arity,
        let answer := w.answer (.build (.reduce kind arity))
        (∀ v, (∃ w', answer = (.refused v, w')) ↔
            if kind.isLeaf = true ∧ 0 < arity then v = .leafReduction kind arity
            else w.stack.toList.length < arity ∧
              v = .stackUnderflow kind arity w.stack.toList.length) ∧
          ((∃ v w', answer = (.refused v, w')) ∨
            ∃ stack below children, answer = (.done, { w with stack }) ∧
              children.length = arity ∧ w.stack.toList = below ++ children ∧
                stack.toList = below ++ [.branch kind children] ∧
                  stack.capacity = w.stack.capacity) := by
  refine ⟨fun c v w' h => ?_, fun kind arity => ⟨fun v => ?_, ?_⟩⟩
  · have hstep : Step w c (.refused v) w' := by
      have := w.step_answer c
      rwa [h] at this
    obtain ⟨hstack, hinput, hfailed, hsymbols⟩ := hstep.of_refused
    exact ⟨hstack, hinput, hfailed.trans hw, hsymbols, hstep.violation_eq⟩
  · rw [answer_reduce_eq_refused_iff hw, BuildStack.reduce_eq_error_iff, BuildStack.length_toList]
  · rw [answer_reduce hw]
    cases hreduce : w.stack.reduce kind arity with
    | error v => exact .inl ⟨v, _, rfl⟩
    | ok stack =>
      obtain ⟨below, children, harity, hbefore, hafter, hcapacity⟩ :=
        BuildStack.toList_of_reduce hreduce
      exact .inr ⟨stack, below, children, rfl, harity, hbefore, hafter, hcapacity⟩

/-- With the table and the stack both near their bounds, a symbol goes into the table and finds no
    room on the stack. A reduction to a leaf is refused for its kind, though there is only one tree,
    and another one takes that tree as its child. -/
theorem refused_call_keeps_name :
    let w : Workspace :=
      { stack := { nodes := [.leaf .number 7], capacity := some 1 }
        symbols := { capacity := some 1 }
        violation := some (.notALeaf .add) }
    let refused : Violation := .stackOverflow 1
    w.failed = false ∧ w.answer (.build (.pushSymbol "x")) = (.refused refused,
        { w with symbols := { entries := #["x"], capacity := some 1 } }) ∧
      w.symbols.afterRefusal (.build (.pushSymbol "x")) refused =
        { entries := #["x"], capacity := some 1 } ∧
      (∃ w', w.answer (.build (.reduce .nil 2)) = (.refused (.leafReduction .nil 2), w')) ∧
      ∃ stack, w.answer (.build (.reduce .add 1)) = (.done, { w with stack }) ∧
        stack.toList = [.branch .add [.leaf .number 7]] := by
  intro w refused
  obtain ⟨hkeeps, hreduce⟩ := @refused_call_keeps w rfl
  have hanswer : w.answer (.build (.pushSymbol "x")) = (.refused refused,
      { w with symbols := { entries := #["x"], capacity := some 1 } }) := rfl
  obtain ⟨-, -, -, hsymbols, -⟩ := hkeeps _ _ _ hanswer
  refine ⟨rfl, hanswer, hsymbols.symm, ((hreduce .nil 2).1 _).2 rfl, ?_⟩
  rcases (hreduce .add 1).2 with ⟨v, w', h⟩ | ⟨stack, -, -, h, -⟩
  · cases h
  · refine ⟨stack, h, ?_⟩
    cases h
    rfl

end Workspace

end Arbor
