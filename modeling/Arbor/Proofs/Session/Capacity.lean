import Mathlib.Data.List.Basic
import Mathlib.Data.List.Induction
import Arbor.Engine.Script
import Arbor.Proofs.Session.Judgement

/-!
# The capacity of the stack

A push looks at the capacity, a reduction does not: its node is to take the place of
the children that it takes away. A reduction to a childless node takes none away, and
so it makes a full stack grow. This is the only way past the capacity
(`BuildStack.size_operate_le_iff`, `Workspace.Step.size_le_iff`). So the capacity
holds throughout if and only if no such reduction meets a full stack, whatever is
done to a stack by itself and whatever an engine does to it
(`Session.capacity_holds_iff`).
-/

namespace Arbor

/-! ### Bounds along a sequence of actions -/

/-- A bound holds along a sequence of actions if and only if no action meets a state
    at which it breaks the bound. -/
theorem forall_prefix_le_iff {State Action : Type} {step : State → Action → State}
    {size : State → Nat} {bound : Nat} {Good : State → Prop} {Breaks : State → Action → Prop}
    (hgood : ∀ s a, Good s → Good (step s a))
    (hstep : ∀ s a, Good s → size s ≤ bound → (size (step s a) ≤ bound ↔ ¬Breaks s a))
    {s : State} (hg : Good s) (hs : size s ≤ bound) (actions : List Action) :
    (∀ done, done <+: actions → size (done.foldl step s) ≤ bound) ↔
      ∀ done a, done ++ [a] <+: actions → ¬Breaks (done.foldl step s) a := by
  -- The induction is on the actions done, the last one taken off.
  have good (done : List Action) : Good (done.foldl step s) := by
    induction done using List.reverseRecOn with
    | nil => exact hg
    | append_singleton done a ih =>
      rw [List.foldl_concat]
      exact hgood _ a ih
  constructor
  · intro h done a hp
    have hle := h _ hp
    rw [List.foldl_concat] at hle
    exact (hstep _ a (good done) (h done ((List.prefix_append done [a]).trans hp))).1 hle
  · intro h done
    induction done using List.reverseRecOn with
    | nil => exact fun _ => hs
    | append_singleton done a ih =>
      intro hp
      rw [List.foldl_concat]
      exact (hstep _ a (good done) (ih ((List.prefix_append done [a]).trans hp))).2 (h done a hp)

/-! ### One action -/

namespace BuildStack

variable {stack s : BuildStack} {capacity : Nat}

/-- A reduction to a childless node is never refused. -/
theorem reduce_zero_ne_error (kind : Kind) (v : Violation) : stack.reduce kind 0 ≠ .error v := by
  simp [reduce]

/-- A call that builds exceeds the capacity only by a childless reduction on a full stack. -/
theorem size_le_iff_of_perform {next : Nat} {op : BuildOp} (hop : op ≠ .setError)
    (h : stack.perform next op = .ok s) (hc : stack.capacity = some capacity)
    (hs : stack.size ≤ capacity) :
    s.size ≤ capacity ↔ ¬(stack.size = capacity ∧ ∃ kind, op = .reduce kind 0) := by
  rcases perform_leaf_or_reduce stack next hop with
    ⟨kind, value, hl, hp⟩ | ⟨kind, arity, rfl, hp⟩
  · obtain ⟨-, hpush⟩ := pushLeaf_eq_ok_iff.1 (hp ▸ h)
    obtain ⟨hroom, rfl⟩ := push_eq_ok_iff.1 hpush
    have hlt : stack.size < capacity := hroom capacity hc
    exact iff_of_true hlt fun hfull => Nat.ne_of_lt hlt hfull.1
  · have hsize := size_of_reduce (hp ▸ h)
    -- Only a reduction that takes no tree off makes the stack grow.
    cases arity with
    | zero =>
      have hk : ∃ k, BuildOp.reduce kind 0 = .reduce k 0 := ⟨kind, rfl⟩
      simp only [hk, and_true]
      omega
    | succ arity =>
      have hk : ¬∃ k, BuildOp.reduce kind (arity + 1) = .reduce k 0 := by simp
      simp only [hk, and_false, not_false_iff, iff_true]
      omega

/-- What can be done to a stack by itself. -/
inductive Op
  | pushLeaf (kind : Kind) (value : Int64)
  | pushNil
  | reduce (kind : Kind) (arity : Nat)
  | pop
  | clear

/-- The stack after an operation. One that is refused leaves it as it is. -/
def operate (stack : BuildStack) : Op → BuildStack
  | .pushLeaf kind value => (stack.pushLeaf kind value).toOption.getD stack
  | .pushNil => stack.pushNil.toOption.getD stack
  | .reduce kind arity => (stack.reduce kind arity).toOption.getD stack
  | .pop => stack.pop.2
  | .clear => stack.clear

/-- The stack after any operations, the first one first. -/
def operateAll (stack : BuildStack) (ops : List Op) : BuildStack := ops.foldl operate stack

/-- An operation is a call that builds, with its refusal ignored, or it only takes trees off. -/
theorem operate_cases (stack : BuildStack) (op : Op) :
    (∃ call : BuildOp, call ≠ .setError ∧
        (∀ kind, op = .reduce kind 0 ↔ call = .reduce kind 0) ∧
        stack.operate op = (stack.perform 0 call).toOption.getD stack) ∨
      (stack.operate op).size ≤ stack.size ∧ (stack.operate op).capacity = stack.capacity ∧
        ∀ kind, op ≠ .reduce kind 0 := by
  cases op with
  | pushLeaf kind value => exact .inl ⟨.pushLeaf kind value, nofun, by simp, rfl⟩
  | pushNil => exact .inl ⟨.pushNil, nofun, by simp, rfl⟩
  | reduce kind arity => exact .inl ⟨.reduce kind arity, nofun, by simp, rfl⟩
  | pop => exact .inr ⟨Nat.sub_le _ _, rfl, nofun⟩
  | clear => exact .inr ⟨Nat.zero_le _, rfl, nofun⟩

theorem capacity_operate (stack : BuildStack) (op : Op) :
    (stack.operate op).capacity = stack.capacity := by
  rcases stack.operate_cases op with ⟨call, hcall, -, ho⟩ | ⟨-, hc, -⟩
  · rw [ho]
    cases h : stack.perform 0 call with
    | error v => rfl
    | ok s =>
      obtain ⟨_, _, -, -, hc, -⟩ := exists_of_perform hcall h
      exact hc
  · exact hc

/-- An operation exceeds the capacity only if it is a childless reduction on a full stack. -/
theorem size_operate_le_iff (op : Op) (hc : stack.capacity = some capacity)
    (hs : stack.size ≤ capacity) :
    (stack.operate op).size ≤ capacity ↔
      ¬(stack.size = capacity ∧ ∃ kind, op = .reduce kind 0) := by
  rcases stack.operate_cases op with ⟨call, hcall, hr, ho⟩ | ⟨hle, -, hr⟩
  · simp only [ho, hr]
    cases h : stack.perform 0 call with
    | ok s => exact size_le_iff_of_perform hcall h hc hs
    | error v =>
      refine iff_of_true hs ?_
      rintro ⟨-, kind, rfl⟩
      exact reduce_zero_ne_error kind v h
  · exact iff_of_true (Nat.le_trans hle hs) (by simp [hr])

end BuildStack

/-- A call exceeds the capacity only if it is a childless reduction on a full stack, while
    the source is not marked ill-formed. -/
theorem Workspace.Step.size_le_iff {w w' : Workspace} {c : Call} {a : Answer} {capacity : Nat}
    (h : Step w c a w') (hc : w.stack.capacity = some capacity) (hs : w.stack.size ≤ capacity) :
    w'.stack.size ≤ capacity ↔
      ¬(w.failed = false ∧ w.stack.size = capacity ∧ ∃ kind, c = .build (.reduce kind 0)) := by
  cases h with
  | ignored hf => exact iff_of_true hs fun ⟨hf', _⟩ => by rw [hf] at hf'; cases hf'
  | unnamed hf => exact iff_of_true hs fun ⟨hf', _⟩ => by rw [hf] at hf'; cases hf'
  | built hf hop _ hp => simpa [hf] using BuildStack.size_le_iff_of_perform hop hp hc hs
  | crowded _ ht =>
    refine iff_of_true hs ?_
    rintro ⟨-, -, kind, ⟨⟩⟩
    cases ht
  | @refused _ _ v _ _ hp =>
    refine iff_of_true hs ?_
    rintro ⟨-, -, kind, ⟨⟩⟩
    exact BuildStack.reduce_zero_ne_error kind v hp
  | _ => exact iff_of_true hs (by simp)

/-! ### Runs -/

/-- The capacity of a stack holds throughout if no operation exceeds it. -/
theorem BuildStack.forall_size_le_iff (capacity : Nat) (ops : List Op) :
    (∀ done, done <+: ops → ((ofCapacity (some capacity)).operateAll done).size ≤ capacity) ↔
      ∀ done op, done ++ [op] <+: ops →
        ¬(((ofCapacity (some capacity)).operateAll done).size = capacity ∧
          ∃ kind, op = .reduce kind 0) := by
  have hgood (s : BuildStack) (op : Op) (hc : s.capacity = some capacity) :
      (s.operate op).capacity = some capacity := by rw [capacity_operate, hc]
  have hempty : (ofCapacity (some capacity)).size ≤ capacity := Nat.zero_le _
  exact forall_prefix_le_iff hgood (fun s op hc hs => s.size_operate_le_iff op hc hs) rfl hempty ops

namespace Workspace

/-- Calls one after the other, as a fold. -/
theorem foldl_reply (w : Workspace) (calls : List Call) :
    calls.foldl (fun w c => (w.reply c).2) w = w.after calls := by
  induction calls generalizing w with
  | nil => rfl
  | cons c calls ih => exact ih (w.reply c).2

/-- The capacity of a stack holds throughout if no call exceeds it. -/
theorem forall_size_le_iff {w : Workspace} {capacity : Nat}
    (hc : w.stack.capacity = some capacity) (hs : w.stack.size ≤ capacity) (calls : List Call) :
    (∀ done, done <+: calls → (w.after done).stack.size ≤ capacity) ↔
      ∀ done c, done ++ [c] <+: calls →
        ¬((w.after done).failed = false ∧ (w.after done).stack.size = capacity ∧
          ∃ kind, c = .build (.reduce kind 0)) := by
  have hgood (w : Workspace) (c : Call) (hc : w.stack.capacity = some capacity) :
      (w.reply c).2.stack.capacity = some capacity := by
    rw [← hc]
    exact congrArg Limits.maxStackDepth (w.limits_reply c)
  have h := forall_prefix_le_iff hgood (fun w c hc hs => (w.step_answer c).size_le_iff hc hs)
    hc hs calls
  simp only [foldl_reply] at h
  exact h

/-- What exchanges begin with are the exchanges of some first calls. -/
theorem prefix_exchanges_iff {w : Workspace} {calls : List Call} {xs : List Exchange} :
    xs <+: w.exchanges calls ↔ ∃ done, done <+: calls ∧ xs = w.exchanges done := by
  constructor
  · rintro ⟨ys, hxs⟩
    have hcalls := congrArg (List.map (·.call)) hxs
    rw [map_call_exchanges, List.map_append] at hcalls
    refine ⟨xs.map (·.call), ⟨_, hcalls⟩, ?_⟩
    rw [← hcalls, exchanges_append] at hxs
    exact (List.append_inj hxs (by simp)).1
  · rintro ⟨done, ⟨rest, rfl⟩, rfl⟩
    exact ⟨_, (w.exchanges_append done rest).symm⟩

/-- The last of the first exchanges is that of the call which comes next. -/
theorem concat_prefix_exchanges_iff {w : Workspace} {calls : List Call} {past : List Exchange}
    {x : Exchange} :
    past ++ [x] <+: w.exchanges calls ↔
      ∃ done c, done ++ [c] <+: calls ∧ past = w.exchanges done ∧
        x = ⟨c, ((w.after done).reply c).1⟩ := by
  rw [prefix_exchanges_iff]
  constructor
  · rintro ⟨done, hp, hxs⟩
    cases done using List.reverseRecOn with
    | nil => simp [exchanges] at hxs
    | append_singleton done c =>
      rw [exchanges_append] at hxs
      obtain ⟨hpast, hx⟩ := List.append_inj' hxs rfl
      exact ⟨done, c, hp, hpast, List.singleton_inj.1 hx⟩
  · rintro ⟨done, c, hp, rfl, rfl⟩
    exact ⟨done ++ [c], hp, (w.exchanges_append done [c]).symm⟩

end Workspace

namespace Exchange

/-- The number of trees on the stack after some exchanges, when it was empty before. -/
def depthAfter (past : List Exchange) : Nat := past.getLast?.elim 0 (·.reply.depth)

theorem depthAfter_exchanges {w : Workspace} (hw : w.stack.size = 0) (calls : List Call) :
    depthAfter (w.exchanges calls) = (w.after calls).stack.size := by
  cases calls using List.reverseRecOn with
  | nil => exact hw.symm
  | append_singleton calls c =>
    rw [Workspace.exchanges_append, Workspace.after_append, depthAfter, Workspace.exchanges,
      Workspace.exchanges, List.getLast?_concat]
    rfl

/-- The depth is bounded after any of the exchanges if every reply tells so. -/
theorem forall_depthAfter_le_iff {xs : List Exchange} {bound : Nat} :
    (∀ past, past <+: xs → depthAfter past ≤ bound) ↔ ∀ x ∈ xs, x.reply.depth ≤ bound := by
  constructor
  · intro h x hx
    obtain ⟨past, rest, rfl⟩ := List.append_of_mem hx
    have hle := h (past ++ [x]) ⟨rest, by simp⟩
    rwa [depthAfter, List.getLast?_concat] at hle
  · intro h past hp
    rw [depthAfter]
    cases hl : past.getLast? with
    | none => exact Nat.zero_le _
    | some x => exact h x (hp.subset (List.mem_of_getLast? hl))

end Exchange

/-- The replies never tell more than the capacity if no call exceeds it, as far as the
    exchanges before it tell. -/
theorem Workspace.forall_depth_le_iff {w : Workspace} {capacity : Nat}
    (hc : w.stack.capacity = some capacity) (hs : w.stack.size = 0) (hf : w.failed = false)
    (calls : List Call) :
    (∀ x ∈ w.exchanges calls, x.reply.depth ≤ capacity) ↔
      ∀ past x kind, past ++ [x] <+: w.exchanges calls → x.call = .build (.reduce kind 0) →
        past.any (·.marksFailure) = false → Exchange.depthAfter past ≠ capacity := by
  have hmark (done : List Call) :
      (w.exchanges done).any (·.marksFailure) = (w.after done).failed := by
    rw [failed_after, hf, Bool.false_or]
  have hsizes := w.forall_size_le_iff hc (hs ▸ Nat.zero_le capacity) calls
  -- What the exchanges tell of depth and mark is how the workspace stands.
  rw [← Exchange.forall_depthAfter_le_iff]
  constructor
  · intro h past x kind hp hx hm hfull
    obtain ⟨done, c, hdone, rfl, rfl⟩ := concat_prefix_exchanges_iff.1 hp
    rw [hmark] at hm
    rw [Exchange.depthAfter_exchanges hs] at hfull
    refine hsizes.1 ?_ done c hdone ⟨hm, hfull, kind, hx⟩
    intro done hdone
    rw [← Exchange.depthAfter_exchanges hs]
    exact h _ (prefix_exchanges_iff.2 ⟨done, hdone, rfl⟩)
  · intro h past hp
    obtain ⟨done, hdone, rfl⟩ := prefix_exchanges_iff.1 hp
    rw [Exchange.depthAfter_exchanges hs]
    refine hsizes.2 ?_ done hdone
    rintro done c hdone ⟨hm, hfull, kind, rfl⟩
    refine h _ _ kind (concat_prefix_exchanges_iff.2 ⟨done, _, hdone, rfl, rfl⟩) rfl ?_ ?_
    · rw [hmark, hm]
    · rw [Exchange.depthAfter_exchanges hs, hfull]

namespace Session

/-- When the capacity holds. The stack stays within its capacity throughout if and only
    if no reduction to a childless node ever meets a full stack; this is so for all
    operations on a stack by itself, and for all runs in a session. A call after the
    source was marked ill-formed does nothing, whatever it meets. -/
theorem capacity_holds_iff (capacity : Nat) (ops : List BuildStack.Op) (maxSymbols : Option Nat)
    (uses : List Use) (engine : Engine) (source : ByteArray) :
    let stack : BuildStack := .ofCapacity (some capacity)
    let limits : Limits := ⟨some capacity, maxSymbols⟩
    let exchanges := (((new limits).after uses).parse engine source).exchanges
    ((∀ done, done <+: ops → (stack.operateAll done).size ≤ capacity) ↔
        ∀ done kind, done ++ [.reduce kind 0] <+: ops →
          (stack.operateAll done).size ≠ capacity) ∧
      ((∀ x ∈ exchanges, x.reply.depth ≤ capacity) ↔
        ∀ past x kind, past ++ [x] <+: exchanges → x.call = .build (.reduce kind 0) →
          past.any (·.marksFailure) = false → Exchange.depthAfter past ≠ capacity) := by
  intro stack limits exchanges
  constructor
  · refine (BuildStack.forall_size_le_iff capacity ops).trans ⟨?_, ?_⟩
    · exact fun h done kind hp hfull => h done _ hp ⟨hfull, kind, rfl⟩
    · rintro h done op hp ⟨hfull, kind, rfl⟩
      exact h done kind hp hfull
  · obtain ⟨calls, hx, -⟩ := engine.exists_calls (.ready limits source)
    have hxs : exchanges = (Workspace.ready limits source).exchanges calls :=
      (parse_after limits uses engine source).2.2.trans hx
    rw [hxs]
    exact Workspace.forall_depth_le_iff rfl rfl rfl calls

/-- A reduction to a childless node exceeds a capacity of zero. -/
theorem capacity_exceeded :
    let exchanges := ((new ⟨some 0, none⟩).parse (.ofScript [.reduce .add 0]) .empty).exchanges
    ¬((BuildStack.ofCapacity (some 0)).operateAll [.reduce .add 0]).size ≤ 0 ∧
      ¬∀ x ∈ exchanges, x.reply.depth ≤ 0 := by
  constructor
  · decide
  · intro h
    exact absurd (h ⟨.build (.reduce .add 0), ⟨.done, 1, false⟩⟩ (.head _)) (by decide)

end Session

end Arbor
