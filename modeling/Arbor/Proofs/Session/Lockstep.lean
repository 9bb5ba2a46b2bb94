import Arbor.Proofs.Session.Limits
import Arbor.Proofs.Session.Postorder

/-!
# Runs under wider limits

An engine cannot ask for the limits of its session. It learns of them by a call that is refused,
and by nothing else. So as long as no call is refused, its run and the run under wider limits go in
lockstep: after each call the two workspaces differ in their limits alone, and the engine has had
the same replies (`Workspace.reply_limitTo`, `Engine.run_limitTo`).

A run that gives a tree has had no call refused, also if the engine pays no heed to refusals. So
what is parsed under limits is parsed to the same tree under all wider ones
(`Session.parse_of_le`).
-/

namespace Arbor

/-- Limits are wider if they leave at least as much room for trees and for names. There is room
    for any number where there is no limit. -/
instance : LE Limits where
  le limits wider :=
    (∀ b ∈ wider.maxStackDepth, ∃ a ∈ limits.maxStackDepth, a ≤ b) ∧
      ∀ b ∈ wider.maxSymbols, ∃ a ∈ limits.maxSymbols, a ≤ b

/-! ### One call -/

/-- Where there is room under a bound, there is room under a wider one. -/
theorem lt_of_wider {bound wider : Option Nat} {size : Nat} (hw : ∀ b ∈ wider, ∃ a ∈ bound, a ≤ b)
    (h : ∀ a ∈ bound, size < a) : ∀ b ∈ wider, size < b := by
  intro b hb
  obtain ⟨a, ha, hle⟩ := hw b hb
  exact Nat.lt_of_lt_of_le (h a ha) hle

namespace BuildStack

variable {stack s : BuildStack}

/-- Under a wider bound, a push puts the same node on top. -/
theorem push_setCapacity {node : Node} {wider : Option Nat} (h : stack.push node = .ok s)
    (hw : ∀ b ∈ wider, ∃ a ∈ stack.capacity, a ≤ b) :
    (stack.setCapacity wider).push node = .ok (s.setCapacity wider) := by
  obtain ⟨hroom, rfl⟩ := push_eq_ok_iff.1 h
  exact push_eq_ok_iff.2 ⟨lt_of_wider hw hroom, rfl⟩

/-- Under a wider bound, a call does to the stack what it does. -/
theorem perform_setCapacity {next : Nat} {op : BuildOp} {wider : Option Nat} (hop : op ≠ .setError)
    (h : stack.perform next op = .ok s) (hw : ∀ b ∈ wider, ∃ a ∈ stack.capacity, a ≤ b) :
    (stack.setCapacity wider).perform next op = .ok (s.setCapacity wider) := by
  obtain ⟨d, hd⟩ := BuildOp.exists_demand? hop
  rcases BuildOp.leaf_or_reduce hd next with ⟨kind, value, -, hp⟩ | ⟨kind, arity, rfl, -⟩
  · rw [hp] at h ⊢
    obtain ⟨hk, hpush⟩ := pushLeaf_eq_ok_iff.1 h
    exact pushLeaf_eq_ok_iff.2 ⟨hk, push_setCapacity hpush hw⟩
  · exact reduce_setCapacity h wider

end BuildStack

/-- Under a wider bound, a table takes in the name that it takes in. -/
theorem SymbolTable.takeIn_wider {table t : SymbolTable} {name : Option String} {wider : Option Nat}
    (h : table.takeIn name = .ok t) (hw : ∀ b ∈ wider, ∃ a ∈ table.capacity, a ≤ b) :
    ({ table with capacity := wider } : SymbolTable).takeIn name =
      .ok { t with capacity := wider } := by
  obtain ⟨hroom, rfl⟩ := takeIn_eq_ok_iff.1 h
  exact takeIn_eq_ok_iff.2 ⟨fun hn => lt_of_wider hw (hroom hn), rfl⟩

namespace Workspace

variable {w w' : Workspace} {c : Call} {a : Answer} {wider : Limits}

/-- Under wider limits, a call that is not refused comes to the same. -/
theorem Step.limitTo (h : Step w c a w') (ha : a.refusal? = none) (hw : w.limits ≤ wider) :
    Step (w.limitTo wider) c a (w'.limitTo wider) := by
  cases h with
  | ignored hf => exact .ignored hf
  | unnamed hf => exact .unnamed hf
  | marked => exact .marked
  | built hf hop ht hs =>
    exact .built hf hop (SymbolTable.takeIn_wider ht hw.2) (BuildStack.perform_setCapacity hop hs hw.1)
  | named hf ht => exact .named hf (SymbolTable.takeIn_wider ht hw.2)
  | read => exact .read
  | readToEnd => exact .readToEnd
  | crowded | refused | full => cases ha

theorem reply_limitTo (ha : (w.reply c).1.answer.refusal? = none) (hw : w.limits ≤ wider) :
    (w.limitTo wider).reply c = ((w.reply c).1, (w.reply c).2.limitTo wider) := by
  have hstep := ((w.step_answer c).limitTo ha hw).answer_eq
  rw [reply, hstep]
  rfl

end Workspace

/-! ### Runs -/

/-- Under wider limits, a run without refusals is the same run. -/
theorem Engine.run_limitTo {w : Workspace} {wider : Limits} (engine : Engine)
    (hr : ∀ x ∈ (engine.run w).exchanges, x.refusal? = none) (hw : w.limits ≤ wider) :
    engine.run (w.limitTo wider) =
      { engine.run w with workspace := (engine.run w).workspace.limitTo wider } := by
  induction engine generalizing w with
  | finish verdict => rfl
  | call c next ih =>
    rw [run_call] at hr ⊢
    obtain ⟨ha, hrest⟩ := List.forall_mem_cons.1 hr
    have hlimits : (w.reply c).2.limits ≤ wider := (w.limits_reply c).symm ▸ hw
    -- The reply is the same, and so the engine goes on in the same way.
    rw [run_call, Workspace.reply_limitTo ha hw]
    dsimp only
    rw [ih _ hrest hlimits]

namespace Session

/-- Wider limits never change a success. What an engine parses under limits, it parses under wider
    ones: the root is the same and so are the names, and every call has the same reply. Neither
    session need be a new one. -/
theorem parse_of_le {limits wider : Limits} (hw : limits ≤ wider) {uses uses' : List Use}
    {engine : Engine} {source : ByteArray} {tree : ParseTree}
    (h : (((new limits).after uses).parse engine source).result = .ok tree) :
    let outcome := ((new wider).after uses').parse engine source
    outcome.result = .ok ⟨tree.root, ⟨tree.symbols.entries, wider.maxSymbols⟩⟩ ∧
      outcome.exchanges = (((new limits).after uses).parse engine source).exchanges := by
  intro outcome
  obtain ⟨hresult, -, hexchanges⟩ := parse_after limits uses engine source
  obtain ⟨hresult', -, hexchanges'⟩ := parse_after wider uses' engine source
  -- A refusal would have been the result.
  have hjudged := (result_parse_after limits source engine uses).symm.trans h
  have hrun := engine.run_limitTo (Run.of_judgement_eq_ok hjudged).2.1 hw
  change engine.run (.ready wider source) = _ at hrun
  constructor
  · refine hresult'.trans ?_
    rw [hrun, Workspace.conclude_limitTo, ← hresult, h]
    rfl
  · refine hexchanges'.trans ?_
    rw [hrun, hexchanges]

/-- An engine that goes by the replies, where there is room for one name and one tree only, and
    where there is room for any number. -/
theorem parse_of_le_adaptive :
    let engine : Engine := .call (.intern "x") fun reply =>
      .ofScript (if reply.answer.refusal?.isSome then [.pushNumber 0] else [.pushNil])
    let limits : Limits := ⟨some 1, some 1⟩
    let outcome := (new .unbounded).parse engine .empty
    limits ≤ .unbounded ∧
      ((new limits).parse engine .empty).result = .ok ⟨.nil, ⟨#["x"], some 1⟩⟩ ∧
        outcome.result = .ok ⟨.nil, ⟨#["x"], none⟩⟩ ∧
          outcome.exchanges = ((new limits).parse engine .empty).exchanges := by
  intro engine limits outcome
  have hw : limits ≤ .unbounded := ⟨nofun, nofun⟩
  have h : ((new limits).parse engine .empty).result = .ok ⟨.nil, ⟨#["x"], some 1⟩⟩ := rfl
  have hwider := @parse_of_le limits .unbounded hw [] [] engine .empty _ h
  exact ⟨hw, h, hwider⟩

end Session

end Arbor
