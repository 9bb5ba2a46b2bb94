import Arbor.Proofs.Session.History

/-!
# What a run comes to

A session keeps two marks while an engine runs: whether the source was marked
ill-formed, and the first violation that a call ran into. Both are told by the
exchanges of the run, whatever the engine makes of them (`Workspace.failed_after`,
`Workspace.violation_after`), and so is the symbol table (`Workspace.entries_after`).
A run is thus judged by its exchanges, its verdict and its final stack
(`Run.judgement`), and that judgement is what the session gives
(`Session.parse_eq_judgement`).
-/

namespace Arbor

/-- The violation of a call that was refused. -/
def Answer.refusal? : Answer → Option Violation
  | refused v => some v
  | _ => none

/-- The name that a call is to bring into the symbol table. -/
def Call.name? : Call → Option String
  | build op => op.name?
  | intern name => some name
  | _ => none

namespace Exchange

/-- The violation that the call ran into. -/
def refusal? (x : Exchange) : Option Violation := x.reply.answer.refusal?

/-- The call marks the source as ill-formed. -/
def marksFailure (x : Exchange) : Bool := x.call = .build .setError

/-- The name that the call brought into the symbol table. The name of a symbol is
    there before its leaf is pushed, and stays if the stack has no room for that. -/
def name? (x : Exchange) : Option String :=
  if x.reply.failed then none
  else
    match x.reply.answer with
    | .refused (.symbolCapacityExceeded _) => none
    | _ => x.call.name?

theorem name?_eq_none {x : Exchange} (h : x.call.name? = none) : x.name? = none := by
  unfold name?
  split
  · rfl
  · split
    · rfl
    · exact h

end Exchange

/-! ### Marks and names, call by call -/

namespace Workspace

variable {w w' : Workspace} {c : Call} {a : Answer}

theorem Step.failed_eq (h : Step w c a w') :
    w'.failed = (w.failed || decide (c = .build .setError)) := by
  cases h with
  | ignored hf => rw [hf, Bool.true_or]
  | built hf hop _ _ => simp [hop]
  | marked => simp
  -- A mark of failure is never refused.
  | @crowded op v hf ht =>
    have hop : op ≠ .setError := by
      rintro rfl
      cases ht
    simp [hop, latch]
  | @refused op symbols v hf ht hs =>
    have hop : op ≠ .setError := by
      rintro rfl
      cases hs
    simp [hop, latch]
  | _ => simp [latch]

theorem Step.violation_eq (h : Step w c a w') :
    w'.violation = w.violation.or a.refusal? := by
  cases h with
  | crowded | refused | full => cases hv : w.violation <;> simp [latch, Answer.refusal?, hv]
  | _ => exact (Option.or_none).symm

/-- A call adds to the table the name that its exchange tells. -/
theorem Step.entries_eq (h : Step w c a w') (depth : Nat) :
    w'.symbols.entries.toList =
      w.symbols.entries.toList ++ (Exchange.name? ⟨c, a, depth, w'.failed⟩).toList := by
  cases h with
  | ignored hf => simp [Exchange.name?, hf]
  | unnamed hf => simp [Exchange.name?, hf]
  | marked => simp [Exchange.name?]
  | built hf hop ht hs =>
    rw [(SymbolTable.takeIn_eq_ok_iff.1 ht).2]
    simp [Exchange.name?, hf, Call.name?]
  | crowded hf ht =>
    obtain ⟨-, capacity, -, -, rfl⟩ := SymbolTable.takeIn_eq_error_iff.1 ht
    simp [Exchange.name?, hf, latch]
  | @refused op symbols v hf ht hs =>
    rw [latch, (SymbolTable.takeIn_eq_ok_iff.1 ht).2]
    -- Only the leaf of a name can be refused when there is a name, and it is for want
    -- of room on the stack.
    cases op with
    | pushSymbol name =>
      obtain ⟨capacity, -, -, rfl⟩ := BuildStack.pushLeaf_eq_error_iff.1 hs
      simp [Exchange.name?, hf, Call.name?, BuildOp.name?]
    | _ => rw [Exchange.name?_eq_none rfl]; simp [BuildOp.name?]
  | named hf ht =>
    rw [(SymbolTable.takeIn_eq_ok_iff.1 ht).2]
    simp [Exchange.name?, hf, Call.name?]
  | full hf ht =>
    obtain ⟨-, capacity, -, -, rfl⟩ := SymbolTable.takeIn_eq_error_iff.1 ht
    simp [Exchange.name?, hf, latch]
  | read => simp [Exchange.name?, Call.name?]
  | readToEnd => simp [Exchange.name?, Call.name?]

/-! ### Marks and names after any calls -/

/-- The source is marked ill-formed if some call marked it. -/
theorem failed_after (w : Workspace) (calls : List Call) :
    (w.after calls).failed = (w.failed || (w.exchanges calls).any (·.marksFailure)) := by
  induction calls generalizing w with
  | nil => rw [after, exchanges, List.any_nil, Bool.or_false]
  | cons c calls ih =>
    rw [after, ih, exchanges, List.any_cons, ← Bool.or_assoc]
    exact congrArg (· || _) (w.step_answer c).failed_eq

/-- The violation kept is the first that a call ran into. -/
theorem violation_after (w : Workspace) (calls : List Call) :
    (w.after calls).violation = w.violation.or ((w.exchanges calls).findSome? (·.refusal?)) := by
  induction calls generalizing w with
  | nil => rw [after, exchanges, List.findSome?_nil, Option.or_none]
  | cons c calls ih =>
    have hv : (w.reply c).2.violation = w.violation.or (w.reply c).1.answer.refusal? :=
      (w.step_answer c).violation_eq
    rw [after, ih, exchanges, List.findSome?_cons, hv, Option.or_assoc]
    congr 1
    cases hr : (w.reply c).1.answer.refusal? <;> simp [Exchange.refusal?, hr]

/-- The table holds the names of the exchanges, in their order. -/
theorem entries_after (w : Workspace) (calls : List Call) :
    (w.after calls).symbols.entries.toList =
      w.symbols.entries.toList ++ (w.exchanges calls).filterMap (·.name?) := by
  induction calls generalizing w with
  | nil => rw [after, exchanges, List.filterMap_nil, List.append_nil]
  | cons c calls ih =>
    have he : (w.reply c).2.symbols.entries.toList =
        w.symbols.entries.toList ++ (Exchange.name? ⟨c, (w.reply c).1⟩).toList :=
      (w.step_answer c).entries_eq _
    rw [after, ih, exchanges, List.filterMap_cons, he, List.append_assoc]
    cases Exchange.name? ⟨c, (w.reply c).1⟩ <;> rfl

end Workspace

/-! ### The judgement -/

/-- The names that the calls brought into the symbol table, in the order of the calls. -/
def Run.names (run : Run) : List String := run.exchanges.filterMap (·.name?)

/-- What a run comes to, when the symbol table takes up to `capacity` names: a
    syntax error if any call marked the source ill-formed; else the first violation
    that a call ran into; else the violation that the engine finished with; else one
    for a final stack of other than one tree; and else this tree, with all names. -/
def Run.judgement (run : Run) (capacity : Option Nat) : Except ParseError ParseTree :=
  if run.exchanges.any (·.marksFailure) then .error .syntaxError
  else
    match run.exchanges.findSome? (·.refusal?), run.verdict, run.workspace.stack.nodes with
    | some v, _, _ => .error (.contract v)
    | none, some v, _ => .error (.contract v)
    | none, none, [root] => .ok ⟨root, run.names.toArray, capacity⟩
    | none, none, trees => .error (.contract (.invalidFinalStack trees.length))

namespace Workspace

/-- Concluding a run empties the stack, keeps the mark of failure, and moves the
    symbol table out if there is a tree. -/
theorem conclude_workspace (w : Workspace) (verdict : Option Violation) :
    (w.conclude verdict).2.stack.size = 0 ∧ (w.conclude verdict).2.failed = w.failed ∧
      (w.conclude verdict).2.symbols.size =
        match (w.conclude verdict).1 with
        | .ok _ => 0
        | .error _ => w.symbols.size := by
  unfold conclude
  split
  · exact ⟨rfl, rfl, rfl⟩
  · split
    · exact ⟨rfl, rfl, rfl⟩
    · split
      · exact ⟨rfl, rfl, rfl⟩
      · exact ⟨rfl, rfl, rfl⟩

theorem conclude_eq_syntaxError_iff (w : Workspace) (verdict : Option Violation) :
    (w.conclude verdict).1 = .error .syntaxError ↔ w.failed = true := by
  unfold conclude
  split
  · next h => simp [h]
  · next h =>
    split
    · simp [h]
    · split <;> simp [h]

/-- A clean workspace with one tree on the stack gives this tree. -/
theorem conclude_eq_ok {w : Workspace} {root : Node} (hf : w.failed = false)
    (hv : w.violation = none) (hn : w.stack.nodes = [root]) :
    (w.conclude none).1 = .ok ⟨root, w.symbols⟩ := by
  rw [conclude, hf, hv, hn]
  rfl

end Workspace

section

variable (limits : Limits) (source : ByteArray) (engine : Engine)

/-- The marks and the table after a run in a fresh workspace. -/
theorem Engine.run_ready :
    let run := engine.run (.ready limits source)
    run.workspace.failed = run.exchanges.any (·.marksFailure) ∧
      run.workspace.violation = run.exchanges.findSome? (·.refusal?) ∧
        run.workspace.symbols = ⟨run.names.toArray, limits.maxSymbols⟩ := by
  intro run
  obtain ⟨calls, hx, hw⟩ := engine.exists_calls (.ready limits source)
  have he : run.workspace.symbols.entries.toList = run.names := by
    rw [Run.names, hx, hw, Workspace.entries_after]
    rfl
  have hl : run.workspace.limits = limits := by
    rw [hw, Workspace.limits_after]
    rfl
  refine ⟨?_, ?_, ?_⟩
  · rw [hx, hw, Workspace.failed_after]
    rfl
  · rw [hx, hw, Workspace.violation_after]
    rfl
  · rw [← hl, ← he]
    rfl

/-- A run in a fresh workspace is concluded by its judgement. -/
theorem Workspace.conclude_run :
    let run := engine.run (.ready limits source)
    (run.workspace.conclude run.verdict).1 = run.judgement limits.maxSymbols := by
  intro run
  obtain ⟨hf, hv, hs⟩ := engine.run_ready limits source
  change run.workspace.failed = _ at hf
  change run.workspace.violation = _ at hv
  change run.workspace.symbols = _ at hs
  unfold conclude Run.judgement
  -- Mark, violation and verdict are asked for in the same order on both sides.
  rw [hf, hv]
  split
  · rfl
  · cases run.exchanges.findSome? (·.refusal?) with
    | some v => rfl
    | none =>
      cases run.verdict with
      | some v => rfl
      | none =>
        rw [hs]
        match run.workspace.stack.nodes with
        | [] => rfl
        | [root] => rfl
        | _ :: _ :: _ => rfl

/-- The result of a session is the judgement of the run. -/
theorem Session.result_parse_after (uses : List Session.Use) :
    (((new limits).after uses).parse engine source).result =
      (engine.run (.ready limits source)).judgement limits.maxSymbols := by
  rw [(parse_after limits uses engine source).1]
  exact Workspace.conclude_run limits source engine

/-- The outcome law. An engine runs in one way, by its own calls and the replies to them. A session
    answers for this run by its judgement: a mark of failure wins over all violations, the first
    violation of a call over the one that the engine finished with, and this over the final stack.
    Afterwards the stack is empty, the mark tells a syntax error, and the names are left in the
    table unless they went into a tree. -/
theorem Session.parse_eq_judgement (uses : List Session.Use) :
    let run := engine.run (.ready limits source)
    let outcome := ((new limits).after uses).parse engine source
    (∀ r, engine.Runs (.ready limits source) r ↔ r = run) ∧
      outcome.exchanges = run.exchanges ∧
      outcome.result = run.judgement limits.maxSymbols ∧
      outcome.session.depth = 0 ∧
      (outcome.session.hasError = true ↔ outcome.result = .error .syntaxError) ∧
      outcome.session.symbolCount =
        match outcome.result with
        | .ok _ => 0
        | .error _ => run.names.length := by
  intro run outcome
  obtain ⟨hr, hw, hx⟩ := parse_after limits uses engine source
  change outcome.result = _ at hr
  change outcome.session.workspace = _ at hw
  obtain ⟨hd, hf, hc⟩ := run.workspace.conclude_workspace run.verdict
  have hs : run.workspace.symbols.size = run.names.length := by
    have ht := (engine.run_ready limits source).2.2
    change run.workspace.symbols = ⟨run.names.toArray, limits.maxSymbols⟩ at ht
    rw [ht, SymbolTable.size, List.size_toArray]
  refine ⟨fun _ => Engine.runs_iff, hx, result_parse_after limits source engine uses, ?_, ?_, ?_⟩
  · rw [depth, hw]
    exact hd
  · rw [hr, run.workspace.conclude_eq_syntaxError_iff, hasError, hw, hf]
  · rw [symbolCount, hw, hr, ← hs]
    exact hc

end

end Arbor
