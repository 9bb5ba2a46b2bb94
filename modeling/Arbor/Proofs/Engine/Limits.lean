import Arbor.Proofs.Build.Demand
import Arbor.Proofs.Engine.Script

/-!
# Scripts under limits

A script that is carried out where there are no limits is carried out under limits up to
the first call whose demand exceeds one, and comes to the violation of that call; if
there is none, it comes to the same (`Workspace.follow_limitTo`). Whatever becomes of a
script, the stack never holds more trees than the peak of its demands
(`Engine.forall_depth_le_of_ofScript`).
-/

namespace Arbor

namespace BuildOp

/-- The demand of the node that a call makes. -/
def demand? : BuildOp → Option Demand
  | pushSymbol _ => some (.leaf true)
  | reduce _ arity => some (.branch arity)
  | setError => none
  | _ => some (.leaf false)

/-- A call that makes a node pushes a leaf, or reduces trees. -/
theorem leaf_or_reduce {op : BuildOp} {d : Demand} (hd : op.demand? = some d) (next : Nat) :
    (∃ kind value, d = .leaf op.name?.isSome ∧
        ∀ stack : BuildStack, stack.perform next op = stack.pushLeaf kind value) ∨
      ∃ kind arity, op = .reduce kind arity ∧ d = .branch arity := by
  cases op with
  | setError => cases hd
  | reduce kind arity =>
    cases hd
    exact .inr ⟨kind, arity, rfl, rfl⟩
  | pushNil =>
    cases hd
    exact .inl ⟨.nil, Node.unused, rfl, fun _ => rfl⟩
  | _ =>
    cases hd
    exact .inl ⟨_, _, rfl, fun _ => rfl⟩

end BuildOp

/-- Every call that builds makes a node, unless it gives up. -/
theorem BuildOp.exists_demand? {op : BuildOp} (hop : op ≠ .setError) :
    ∃ d, op.demand? = some d := by
  cases op with
  | setError => exact absurd rfl hop
  | _ => exact ⟨_, rfl⟩

namespace Script

/-- The demands of the nodes that a script makes. -/
def demands (script : Script) : List Demand := script.filterMap (·.demand?)

theorem demands_cons {op : BuildOp} {d : Demand} (hd : op.demand? = some d) (script : Script) :
    demands (op :: script) = d :: demands script := List.filterMap_cons_some hd

theorem demands_append (s t : Script) : demands (s ++ t) = demands s ++ demands t :=
  List.filterMap_append

/-- The demands of a script count the names it brings. -/
theorem nameCounts_demands (script : Script) :
    Demand.nameCounts script.demands = (script.filterMap (·.name?)).length := by
  induction script with
  | nil => rfl
  | cons op script ih =>
    cases op with
    | setError => exact ih
    | pushSymbol name =>
      have hnames : (BuildOp.pushSymbol name :: script).filterMap (·.name?) =
          name :: script.filterMap (·.name?) := List.filterMap_cons_some rfl
      rw [demands_cons rfl, Demand.nameCounts, ih, hnames, List.length_cons, Nat.add_comm]
      rfl
    | _ =>
      rw [demands_cons rfl, Demand.nameCounts, ih, List.filterMap_cons_none rfl]
      exact Nat.zero_add _

end Script

/-! ### One call -/

namespace BuildStack

variable {stack s : BuildStack} {kind : Kind}

/-- Under a bound, a leaf finds the stack full or goes on top as it does without. -/
theorem pushLeaf_setCapacity {value : Int64} (h : stack.pushLeaf kind value = .ok s)
    (bound : Option Nat) :
    (stack.setCapacity bound).pushLeaf kind value =
      match bound.filter (· ≤ stack.size) with
      | some capacity => .error (.stackOverflow capacity)
      | none => .ok (s.setCapacity bound) := by
  obtain ⟨hk, hp⟩ := pushLeaf_eq_ok_iff.1 h
  obtain ⟨-, rfl⟩ := push_eq_ok_iff.1 hp
  cases hb : bound.filter (· ≤ stack.size) with
  | some capacity =>
    obtain ⟨rfl, hle⟩ := Option.filter_eq_some_iff.1 hb
    refine pushLeaf_eq_error_iff.2 ?_
    rw [if_pos hk]
    exact ⟨capacity, rfl, of_decide_eq_true hle, rfl⟩
  | none =>
    refine pushLeaf_eq_ok_iff.2 ⟨hk, push_eq_ok_iff.2 ⟨fun capacity hc => ?_, rfl⟩⟩
    have hle := Option.filter_eq_none_iff.1 hb capacity hc
    exact Nat.not_le.1 fun h => hle (decide_eq_true h)

/-- A reduction does not ask for the bound. -/
theorem reduce_setCapacity {arity : Nat} (h : stack.reduce kind arity = .ok s)
    (bound : Option Nat) :
    (stack.setCapacity bound).reduce kind arity = .ok (s.setCapacity bound) := by
  obtain ⟨hk, ha, hn, -⟩ := reduce_eq_ok_iff.1 h
  exact reduce_eq_ok_iff.2 ⟨hk, ha, hn, rfl⟩

/-- A call that is carried out changes the number of trees as its demand tells. -/
theorem size_of_demand? {next : Nat} {op : BuildOp} {d : Demand} (hd : op.demand? = some d)
    (h : stack.perform next op = .ok s) : s.size = d.treesAfter stack.size := by
  rcases BuildOp.leaf_or_reduce hd next with ⟨kind, value, rfl, hp⟩ | ⟨kind, arity, rfl, rfl⟩
  · obtain ⟨-, hpush⟩ := pushLeaf_eq_ok_iff.1 (hp stack ▸ h)
    obtain ⟨-, rfl⟩ := push_eq_ok_iff.1 hpush
    rfl
  · have hsize := size_of_reduce h
    simp only [Demand.treesAfter]
    omega

end BuildStack

namespace SymbolTable

/-- Under a bound, a name finds the table full or is taken in as it is without. -/
theorem takeIn_limit {table t : SymbolTable} {name : Option String} (h : table.takeIn name = .ok t)
    (bound : Option Nat) :
    ({ table with capacity := bound } : SymbolTable).takeIn name =
      match if name.isSome then bound.filter (· ≤ table.size) else none with
      | some capacity => .error (.symbolCapacityExceeded capacity)
      | none => .ok { t with capacity := bound } := by
  obtain ⟨-, rfl⟩ := takeIn_eq_ok_iff.1 h
  cases hb : if name.isSome then bound.filter (· ≤ table.size) else none with
  | some capacity =>
    rw [Option.ite_none_right_eq_some] at hb
    obtain ⟨rfl, hle⟩ := Option.filter_eq_some_iff.1 hb.2
    exact takeIn_eq_error_iff.2 ⟨hb.1, capacity, rfl, of_decide_eq_true hle, rfl⟩
  | none =>
    refine takeIn_eq_ok_iff.2 ⟨fun hn capacity hc => ?_, rfl⟩
    rw [if_pos hn] at hb
    have hle := Option.filter_eq_none_iff.1 hb capacity hc
    exact Nat.not_le.1 fun h => hle (decide_eq_true h)

end SymbolTable

namespace Workspace

variable {w w' : Workspace} {limits : Limits}

/-- How much of the workspace is taken. -/
def extent (w : Workspace) : Extent := ⟨w.stack.size, w.symbols.size⟩

/-- The same workspace under other limits. -/
def limitTo (w : Workspace) (limits : Limits) : Workspace :=
  { w with
    stack := w.stack.setCapacity limits.maxStackDepth
    symbols := { w.symbols with capacity := limits.maxSymbols } }

/-- A call that is carried out adds its demand to the extent. -/
theorem extent_attempt {op : BuildOp} {d : Demand} (hf : w.failed = false)
    (hd : op.demand? = some d) (h : w.attempt op = .ok w') : w'.extent = w.extent.add d := by
  have hop : op ≠ .setError := by rintro rfl; cases hd
  obtain ⟨ht, hs, -⟩ := attempt_eq_ok hf hop h
  have htrees := BuildStack.size_of_demand? hd hs
  have hnames : w'.symbols.size = w.symbols.size + d.nameCount := by
    rw [(SymbolTable.takeIn_eq_ok_iff.1 ht).2]
    cases op <;> cases hd <;> simp [SymbolTable.size, BuildOp.name?, Demand.nameCount]
  rw [extent, extent, Extent.add, htrees, hnames]

/-- Under limits, a call exceeds one or is carried out as it is without. -/
theorem attempt_limitTo {op : BuildOp} {d : Demand} (hf : w.failed = false)
    (hd : op.demand? = some d) (h : w.attempt op = .ok w') (limits : Limits) :
    (w.limitTo limits).attempt op =
      match limits.exceeded? w.extent d with
      | some v => .error v
      | none => .ok (w'.limitTo limits) := by
  have hop : op ≠ .setError := by rintro rfl; cases hd
  obtain ⟨ht, hs, hw⟩ := attempt_eq_ok hf hop h
  have hf' : (w.limitTo limits).failed = false := hf
  have htable := SymbolTable.takeIn_limit ht limits.maxSymbols
  have hattempt : (w.limitTo limits).attempt op =
      ({ w.symbols with capacity := limits.maxSymbols } : SymbolTable).takeIn op.name? >>=
        fun symbols =>
          ((w.stack.setCapacity limits.maxStackDepth).perform w.symbols.size op).map
            fun stack => { w with symbols, stack } := attempt_eq hf' hop
  rw [hattempt, htable]
  rcases BuildOp.leaf_or_reduce hd w.symbols.size with ⟨kind, value, rfl, hp⟩ | ⟨kind, arity, rfl, rfl⟩
  · rw [hp] at hs
    rw [hp, BuildStack.pushLeaf_setCapacity hs]
    rw [Limits.exceeded?, extent]
    -- The table is asked before the stack, here and there.
    cases (if op.name?.isSome then limits.maxSymbols.filter (· ≤ w.symbols.size) else none) with
    | some capacity => rfl
    | none =>
      cases limits.maxStackDepth.filter (· ≤ w.stack.size) with
      | some capacity => rfl
      | none =>
        rw [hw]
        rfl
  · have hr : (w.stack.setCapacity limits.maxStackDepth).perform w.symbols.size
        (.reduce kind arity) = .ok (w'.stack.setCapacity limits.maxStackDepth) :=
      BuildStack.reduce_setCapacity hs limits.maxStackDepth
    rw [hr, hw]
    rfl

/-! ### Scripts -/

/-- A script that is carried out adds all its demands to the extent. -/
theorem follow_demands {script : Script} (hf : w.failed = false) (hm : .setError ∉ script)
    (h : w.follow script = .ok w') :
    w'.failed = false ∧ w'.extent = w.extent.addAll script.demands := by
  induction script generalizing w with
  | nil =>
    cases h
    exact ⟨hf, rfl⟩
  | cons op script ih =>
    rw [List.mem_cons, not_or] at hm
    obtain ⟨d, hd⟩ := BuildOp.exists_demand? (Ne.symm hm.1)
    obtain ⟨v, ha, h⟩ := exists_of_follow_cons h
    have hf' := failed_of_attempt hf (Ne.symm hm.1) ha
    obtain ⟨hf', he⟩ := ih hf' hm.2 h
    refine ⟨hf', ?_⟩
    rw [he, extent_attempt hf hd ha, Script.demands_cons hd, Extent.addAll_cons]

/-- Under limits, a script comes to the first violation of a limit, or to what it comes to
    without. -/
theorem follow_limitTo {script : Script} (hf : w.failed = false) (hm : .setError ∉ script)
    (h : w.follow script = .ok w') (limits : Limits) :
    (w.limitTo limits).follow script =
      match limits.firstExceeded? w.extent script.demands with
      | some v => .error v
      | none => .ok (w'.limitTo limits) := by
  induction script generalizing w with
  | nil =>
    cases h
    rfl
  | cons op script ih =>
    rw [List.mem_cons, not_or] at hm
    obtain ⟨d, hd⟩ := BuildOp.exists_demand? (Ne.symm hm.1)
    obtain ⟨v, ha, h⟩ := exists_of_follow_cons h
    have hf' := failed_of_attempt hf (Ne.symm hm.1) ha
    rw [follow, attempt_limitTo hf hd ha, Script.demands_cons hd, Limits.firstExceeded?,
      ← extent_attempt hf hd ha]
    cases limits.exceeded? w.extent d with
    | some violation => rfl
    | none => exact ih hf' hm.2 h

end Workspace

namespace Engine

/-- The run of a script that is carried out makes all its calls. -/
theorem run_ofScript_of_follow {script : Script} {w w' : Workspace}
    (h : w.follow script = .ok w') :
    let run := (ofScript script).run w
    run.exchanges.map (·.call) = script.map .build ∧ run.workspace = w' := by
  induction script generalizing w with
  | nil =>
    cases h
    exact ⟨rfl, rfl⟩
  | cons op script ih =>
    obtain ⟨v, ha, h⟩ := Workspace.exists_of_follow_cons h
    obtain ⟨hx, hw⟩ := ih h
    have hr := run_ofScript_cons op script w
    rw [Workspace.attempt] at ha
    generalize w.perform op = p at hr ha
    obtain ⟨a, w₁⟩ := p
    cases a with
    | refused violation => cases ha
    | _ =>
      cases ha
      rw [hr]
      refine ⟨?_, hw⟩
      rw [List.map_cons, List.map_cons, hx]

/-- The replies to a script never tell of more trees than the peak of its demands. -/
theorem forall_depth_le_of_ofScript {script : Script} {w : Workspace} {bound : Nat}
    (hs : w.stack.size ≤ bound)
    (hp : w.failed = false → Demand.peak w.stack.size script.demands ≤ bound) :
    ∀ x ∈ ((ofScript script).run w).exchanges, x.reply.depth ≤ bound := by
  induction script generalizing w with
  | nil => exact List.forall_mem_nil _
  | cons op script ih =>
    have hr := run_ofScript_cons op script w
    have h : w.Step (.build op) (w.perform op).1 (w.perform op).2 := w.step_answer (.build op)
    generalize w.perform op = p at hr h
    obtain ⟨a, w'⟩ := p
    -- The stack is as it was, or it has changed by the demand of the call.
    have hstep : w'.stack.size ≤ bound ∧ (a.refusal? = none → w'.failed = false →
        Demand.peak w'.stack.size (Script.demands script) ≤ bound) := by
      cases h with
      | ignored hf => exact ⟨hs, fun _ hf' => by rw [hf] at hf'; cases hf'⟩
      | marked => exact ⟨hs, nofun⟩
      | crowded => exact ⟨hs, nofun⟩
      | refused => exact ⟨hs, nofun⟩
      | built hf hop _ hperform =>
        obtain ⟨d, hd⟩ := BuildOp.exists_demand? hop
        have hpeak := hp hf
        rw [Script.demands_cons hd, Demand.peak, ← BuildStack.size_of_demand? hd hperform,
          Nat.max_le] at hpeak
        exact ⟨Nat.le_trans (Demand.le_peak _ _) hpeak.2, fun _ _ => hpeak.2⟩
    cases a with
    | refused violation =>
      rw [hr]
      intro x hx
      cases List.mem_singleton.1 hx
      exact hstep.1
    | _ =>
      rw [hr]
      exact List.forall_mem_cons.2 ⟨hstep.1, ih hstep.1 (hstep.2 rfl)⟩

end Engine

end Arbor
