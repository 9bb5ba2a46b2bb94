import Arbor.Session

/-!
# Runs and their calls

An engine decides on its calls as it goes, by the replies it gets. But what a
run does to the workspace, and what the engine is told, depends on the calls
alone: a run is a sequence of calls carried out one after the other
(`Engine.exists_calls`). So what every sequence of calls does, every run does.

What one call can do is said once, in `Workspace.Step`, and every fact about
calls is read off its cases. What a run is, call by call, is told by these cases as
well (`Engine.runs_iff`).
-/

namespace Arbor

namespace Workspace

/-! ### Sequences of calls -/

/-- The workspace after a sequence of calls. -/
def after (w : Workspace) : List Call → Workspace
  | [] => w
  | c :: calls => (w.reply c).2.after calls

/-- The exchanges that a sequence of calls makes. -/
def exchanges (w : Workspace) : List Call → List Exchange
  | [] => []
  | c :: calls => ⟨c, (w.reply c).1⟩ :: (w.reply c).2.exchanges calls

theorem after_append (w : Workspace) (cs ds : List Call) :
    w.after (cs ++ ds) = (w.after cs).after ds := by
  induction cs generalizing w with
  | nil => rfl
  | cons c cs ih => exact ih (w.reply c).2

theorem exchanges_append (w : Workspace) (cs ds : List Call) :
    w.exchanges (cs ++ ds) = w.exchanges cs ++ (w.after cs).exchanges ds := by
  induction cs generalizing w with
  | nil => rfl
  | cons c cs ih =>
    rw [List.cons_append, exchanges, exchanges, ih, List.cons_append, after]

@[simp]
theorem map_call_exchanges (w : Workspace) (calls : List Call) :
    (w.exchanges calls).map (·.call) = calls := by
  induction calls generalizing w with
  | nil => rfl
  | cons c calls ih => rw [exchanges, List.map_cons, ih]

@[simp]
theorem length_exchanges (w : Workspace) (calls : List Call) :
    (w.exchanges calls).length = calls.length := by
  rw [← List.length_map, map_call_exchanges]

/-- The first exchanges are those that their calls make. -/
theorem exchanges_map_call {w : Workspace} {calls : List Call} {xs : List Exchange}
    (h : xs <+: w.exchanges calls) : w.exchanges (xs.map (·.call)) = xs := by
  obtain ⟨ys, h⟩ := h
  have hcalls := congrArg (List.map (·.call)) h
  rw [List.map_append, map_call_exchanges] at hcalls
  rw [← hcalls, exchanges_append] at h
  exact (List.append_inj_left h (by rw [length_exchanges, List.length_map])).symm

/-- An exchange is that of its call, after the calls before it. -/
theorem reply_of_exchanges {w : Workspace} {calls : List Call} {xs : List Exchange} {x : Exchange}
    (h : xs ++ [x] <+: w.exchanges calls) :
    x.reply = ((w.after (xs.map (·.call))).reply x.call).1 := by
  have hx := exchanges_map_call h
  rw [List.map_append, exchanges_append,
    exchanges_map_call ((List.prefix_append xs [x]).trans h)] at hx
  exact congrArg Exchange.reply (List.cons.inj (List.append_cancel_left hx)).1.symm

/-- What holds of a workspace and is kept by every call holds after all of them. -/
theorem after_induction {P : Workspace → Prop} {w : Workspace} (h : P w)
    (step : ∀ w c, P w → P (w.reply c).2) (calls : List Call) : P (w.after calls) := by
  induction calls generalizing w with
  | nil => exact h
  | cons c calls ih => exact ih (step w c h)

end Workspace

namespace Engine

theorem runAfter_call (past : List Exchange) (c : Call) (next : Reply → Engine) (w : Workspace) :
    (call c next).runAfter past w =
      (next (w.reply c).1).runAfter (⟨c, (w.reply c).1⟩ :: past) (w.reply c).2 := rfl

/-- The exchanges before a run are only put in front of its own. -/
theorem runAfter_eq (engine : Engine) (past : List Exchange) (w : Workspace) :
    engine.runAfter past w =
      ⟨past.reverse ++ (engine.run w).exchanges, (engine.run w).workspace, (engine.run w).verdict⟩ := by
  induction engine generalizing past w with
  | finish verdict => simp [run, runAfter]
  | call c next ih =>
    rw [run, runAfter_call, runAfter_call, ih, ih _ [_]]
    simp

/-- A run makes its first call and goes on by the reply. -/
theorem run_call (c : Call) (next : Reply → Engine) (w : Workspace) :
    (call c next).run w =
      let rest := (next (w.reply c).1).run (w.reply c).2
      ⟨⟨c, (w.reply c).1⟩ :: rest.exchanges, rest.workspace, rest.verdict⟩ := by
  rw [run, runAfter_call, runAfter_eq]
  rfl

/-- The run of an engine is a sequence of calls. -/
theorem exists_calls (engine : Engine) (w : Workspace) :
    ∃ calls, (engine.run w).exchanges = w.exchanges calls ∧
      (engine.run w).workspace = w.after calls := by
  induction engine generalizing w with
  | finish verdict => exact ⟨[], rfl, rfl⟩
  | call c next ih =>
    obtain ⟨calls, hx, hw⟩ := ih (w.reply c).1 (w.reply c).2
    rw [run_call]
    exact ⟨c :: calls, congrArg _ hx, hw⟩

end Engine

/-! ### What a call does -/

namespace BuildOp

/-- The name that a call brings into the symbol table. -/
def name? : BuildOp → Option String
  | pushSymbol name => some name
  | _ => none

end BuildOp

namespace SymbolTable

/-- The table with a name more, if there is one to take in. -/
def takeIn (table : SymbolTable) : Option String → Except Violation SymbolTable
  | none => .ok table
  | some name => (table.intern name).map (·.2)

theorem intern_eq (table : SymbolTable) (name : String) :
    table.intern name = (table.takeIn (some name)).map (table.size, ·) := by
  cases h : table.intern name with
  | error v => simp [takeIn, h, Except.map]
  | ok taken =>
    have : taken.1 = table.size := by
      unfold intern at h
      split at h
      · split at h <;> cases h
        rfl
      · cases h
        rfl
    simp [takeIn, h, Except.map, ← this]

/-- A name goes behind the others, if there is room for it. -/
theorem takeIn_eq_ok_iff {table t : SymbolTable} {name : Option String} :
    table.takeIn name = .ok t ↔
      (name.isSome → ∀ capacity ∈ table.capacity, table.size < capacity) ∧
        t = { table with entries := table.entries ++ name.toArray } := by
  cases name with
  | none => exact ⟨fun h => ⟨nofun, by cases h; simp⟩, fun h => by rw [h.2]; simp [takeIn]⟩
  | some name =>
    unfold takeIn intern
    cases hc : table.capacity with
    | none => simp [Except.map, eq_comm]
    | some capacity =>
      by_cases h : capacity ≤ table.size
      · simp [Except.map, h, Nat.not_lt.2 h]
      · simp [Except.map, h, Nat.lt_of_not_le h, eq_comm]

/-- A table refuses a name only for want of room. -/
theorem takeIn_eq_error_iff {table : SymbolTable} {name : Option String} {v : Violation} :
    table.takeIn name = .error v ↔
      name.isSome = true ∧
        ∃ capacity ∈ table.capacity, capacity ≤ table.size ∧ v = .symbolCapacityExceeded capacity := by
  cases name with
  | none => simp [takeIn]
  | some name =>
    unfold takeIn intern
    cases hc : table.capacity with
    | none => simp [Except.map]
    | some capacity =>
      by_cases h : capacity ≤ table.size
      · simp [Except.map, h, eq_comm]
      · simp [Except.map, h]

end SymbolTable

namespace BuildStack

/-- The stack after a call that builds, when `next` is the next index of a name. -/
def perform (stack : BuildStack) (next : Nat) : BuildOp → Except Violation BuildStack
  | .pushLeaf kind value => stack.pushLeaf kind value
  | .pushNumber value => stack.pushLeaf .number value
  | .pushBoolean value => stack.pushLeaf .boolean (if value then 1 else 0)
  | .pushSymbol _ => stack.pushLeaf .symbol (Int64.ofNat next)
  | .pushNil => stack.pushNil
  | .reduce kind arity => stack.reduce kind arity
  | .setError => .ok stack

end BuildStack

namespace Workspace

/-- What a call can come to: its answer, and the workspace after it. -/
inductive Step (w : Workspace) : Call → Answer → Workspace → Prop
  /-- Calls that build do nothing once the source is marked ill-formed. -/
  | ignored {op : BuildOp} : w.failed → Step w (.build op) .done w
  | unnamed {name : String} : w.failed → Step w (.intern name) (.interned none) w
  /-- The source is marked ill-formed. -/
  | marked : Step w (.build .setError) .done { w with failed := true }
  /-- The stack changes, after the name of a symbol went into the table. -/
  | built {op : BuildOp} {symbols : SymbolTable} {stack : BuildStack} : w.failed = false →
      op ≠ .setError → w.symbols.takeIn op.name? = .ok symbols →
      w.stack.perform w.symbols.size op = .ok stack →
      Step w (.build op) .done { w with symbols, stack }
  /-- The table has no room for the name of a symbol. -/
  | crowded {op : BuildOp} {v : Violation} : w.failed = false →
      w.symbols.takeIn op.name? = .error v → Step w (.build op) (.refused v) (w.latch v)
  /-- The stack does not allow the change. The name of a symbol stays. -/
  | refused {op : BuildOp} {symbols : SymbolTable} {v : Violation} : w.failed = false →
      w.symbols.takeIn op.name? = .ok symbols → w.stack.perform w.symbols.size op = .error v →
      Step w (.build op) (.refused v) ({ w with symbols }.latch v)
  | named {name : String} {symbols : SymbolTable} : w.failed = false →
      w.symbols.takeIn (some name) = .ok symbols →
      Step w (.intern name) (.interned (some w.symbols.size)) { w with symbols }
  | full {name : String} {v : Violation} : w.failed = false →
      w.symbols.takeIn (some name) = .error v → Step w (.intern name) (.refused v) (w.latch v)
  | read {count : Nat} : Step w (.read count) (.served (w.input.read count).1)
      { w with input := (w.input.read count).2 }
  | readToEnd : Step w .readToEnd (.served w.input.readToEnd.1)
      { w with input := w.input.readToEnd.2 }

theorem build_step (w : Workspace) {op : BuildOp} (hop : op ≠ .setError) (hn : op.name? = none) :
    Step w (.build op) (w.build (·.perform w.symbols.size op)).1
      (w.build (·.perform w.symbols.size op)).2 := by
  have ha : w.symbols.takeIn op.name? = .ok w.symbols := by rw [hn]; rfl
  unfold build
  split
  · next hf => exact .ignored hf
  · next hf =>
    rw [Bool.not_eq_true] at hf
    split
    · next s hs => exact .built hf hop ha hs
    · next v hs => exact .refused hf ha hs

theorem pushSymbol_step (w : Workspace) (name : String) :
    Step w (.build (.pushSymbol name)) (w.pushSymbol name).1 (w.pushSymbol name).2 := by
  unfold pushSymbol intern
  by_cases hf : w.failed
  · rw [if_pos hf]
    exact .ignored hf
  · rw [if_neg hf, SymbolTable.intern_eq]
    rw [Bool.not_eq_true] at hf
    cases ha : w.symbols.takeIn (some name) with
    | error v => exact .crowded hf ha
    | ok symbols =>
      have ha' : w.symbols.takeIn (BuildOp.pushSymbol name).name? = .ok symbols := ha
      -- The name is in the table now, whatever becomes of its leaf.
      have hf' : ¬({ w with symbols } : Workspace).failed = true := by simp [hf]
      simp only [Except.map, build, if_neg hf']
      split
      · next s hs => exact .built hf BuildOp.noConfusion ha' hs
      · next v hs => exact .refused hf ha' hs

theorem intern_step (w : Workspace) (name : String) :
    Step w (.intern name) (w.intern name).1 (w.intern name).2 := by
  unfold intern
  split
  · next hf => exact .unnamed hf
  · next hf =>
    rw [Bool.not_eq_true] at hf
    rw [SymbolTable.intern_eq]
    cases ha : w.symbols.takeIn (some name) with
    | ok symbols => exact .named hf ha
    | error v => exact .full hf ha

/-- Every call comes to one of the cases of `Step`. -/
theorem step_answer (w : Workspace) (c : Call) : Step w c (w.answer c).1 (w.answer c).2 := by
  cases c with
  | build op =>
    cases op with
    | setError => exact .marked
    | pushSymbol name => exact w.pushSymbol_step name
    | pushLeaf kind value => exact w.build_step nofun rfl
    | pushNumber value => exact w.build_step nofun rfl
    | pushBoolean value => exact w.build_step nofun rfl
    | pushNil => exact w.build_step nofun rfl
    | reduce kind arity => exact w.build_step nofun rfl
  | intern name => exact w.intern_step name
  | read count => exact .read
  | readToEnd => exact .readToEnd

/-- And it comes to no other. -/
theorem Step.answer_eq {w w' : Workspace} {c : Call} {a : Answer} (h : Step w c a w') :
    w.answer c = (a, w') := by
  have h' := w.step_answer c
  generalize w.answer c = p at h'
  obtain ⟨b, v⟩ := p
  cases h with
  | ignored hf =>
    cases h' with
    -- A second mark of failure changes nothing.
    | marked => rw [← hf]
    | _ => simp_all
  | marked =>
    cases h' with
    | ignored hf => rw [← hf]
    | marked => rfl
    | built _ hop => exact absurd rfl hop
    | crowded _ ht => cases ht
    | refused _ _ hs => cases hs
  | crowded hf ht =>
    cases h' with
    | marked => cases ht
    | crowded _ ht' =>
      cases ht.symm.trans ht'
      rfl
    | _ => simp_all
  | refused hf ht hs =>
    cases h' with
    | marked => cases hs
    | refused _ ht' hs' =>
      cases ht.symm.trans ht'
      cases hs.symm.trans hs'
      rfl
    | _ => simp_all
  | full hf ht =>
    cases h' with
    | full _ ht' =>
      cases ht.symm.trans ht'
      rfl
    | _ => simp_all
  | _ => cases h' <;> simp_all

theorem Step.reply_eq {w w' : Workspace} {c : Call} {a : Answer} (h : Step w c a w') :
    w.reply c = (⟨a, w'.stack.size, w'.failed⟩, w') := by
  rw [reply, h.answer_eq]

end Workspace

/-! ### Runs, call by call -/

namespace Engine

/-- What a run of an engine is. The engine makes its own calls; each of them comes to one of the
    cases of `Workspace.Step`, and the engine goes on by the reply from the workspace after it,
    until it finishes. -/
inductive Runs : Engine → Workspace → Run → Prop
  | finish {verdict : Option Violation} {w : Workspace} : Runs (finish verdict) w ⟨[], w, verdict⟩
  | call {c : Call} {next : Reply → Engine} {w w' : Workspace} {a : Answer} {rest : Run} :
      w.Step c a w' → Runs (next ⟨a, w'.stack.size, w'.failed⟩) w' rest →
      Runs (call c next) w
        ⟨⟨c, a, w'.stack.size, w'.failed⟩ :: rest.exchanges, rest.workspace, rest.verdict⟩

/-- An engine has one run in a workspace. -/
theorem runs_iff {engine : Engine} {w : Workspace} {run : Run} :
    engine.Runs w run ↔ run = engine.run w := by
  constructor
  · intro h
    induction h with
    | finish => rfl
    | call hstep _ ih => rw [run_call, hstep.reply_eq, ih]
  · rintro rfl
    induction engine generalizing w with
    | finish verdict => exact .finish
    | call c next ih =>
      rw [run_call]
      exact .call (w.step_answer c) (ih _)

end Engine

end Arbor
