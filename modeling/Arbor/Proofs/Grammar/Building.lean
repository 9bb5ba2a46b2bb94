import Arbor.Proofs.Engine.Script
import Arbor.Proofs.Grammar.Recognition

/-!
# The calls that recognition issues

In a workspace that sets no bounds, the calls of a program put its tree on the stack
and its names into the table (`Statement.follow_script`). And whatever recognition
issues is carried out, also where it gets stuck: a goal that reduces two trees only
comes up behind goals that build them (`Goal.Ready`), and every move keeps it so
(`Recognition.Sound.move`). So recognition that gets stuck leaves a mark of failure and
no violation (`Script.follow_ofTokens_of_not`).
-/

namespace Arbor

theorem Atom.op_ne_setError (a : Atom) : a.op ≠ .setError := by cases a <;> nofun

theorem BuildStack.perform_atom (stack : BuildStack) (next : Nat) (a : Atom) :
    stack.perform next a.op = stack.push (a.node next) := by cases a <;> rfl

namespace Workspace

/-- Nothing keeps calls that build from being carried out. -/
structure Open (w : Workspace) : Prop where
  failed : w.failed = false
  limits : w.limits = .unbounded

/-- The workspace with a tree more on the stack, and more names in the table. -/
def built (w : Workspace) (node : Node) (names : List String) : Workspace :=
  { w with
    stack := w.stack.cons node
    symbols := { w.symbols with entries := w.symbols.entries ++ names.toArray } }

variable {w : Workspace} {node : Node} {names : List String}

theorem Open.built (h : w.Open) : (w.built node names).Open := ⟨h.failed, h.limits⟩

theorem Open.stack (h : w.Open) : w.stack.capacity = none := congrArg Limits.maxStackDepth h.limits

theorem Open.symbols (h : w.Open) : w.symbols.capacity = none := congrArg Limits.maxSymbols h.limits

theorem size_symbols_built : (w.built node names).symbols.size = w.symbols.size + names.length := by
  simp [Workspace.built, SymbolTable.size]

theorem size_stack_built : (w.built node names).stack.size = w.stack.size + 1 := rfl

/-- The call for an atom puts its leaf on the stack, and its name into the table. -/
theorem attempt_atom (h : w.Open) (a : Atom) :
    w.attempt a.op = .ok (w.built (a.node w.symbols.size) (Token.names [a.token])) := by
  have htable : w.symbols.takeIn a.op.name? =
      .ok { w.symbols with entries := w.symbols.entries ++ (Token.names [a.token]).toArray } := by
    refine SymbolTable.takeIn_eq_ok_iff.2 ⟨by simp [h.symbols], ?_⟩
    cases a <;> simp [Atom.op, BuildOp.name?, Atom.token, Token.names, Token.name?]
  have hpush : w.stack.push (a.node w.symbols.size) = .ok (w.stack.cons (a.node w.symbols.size)) :=
    BuildStack.push_eq_ok_iff.2 ⟨by simp [h.stack], rfl⟩
  rw [attempt_eq h.failed a.op_ne_setError, htable, BuildStack.perform_atom, hpush]
  rfl

/-- A reduction of two trees puts one tree in their place. -/
theorem attempt_pair (h : w.Open) {kind : Kind} (hk : kind.isLeaf = false) (left right : Node)
    (ns ms : List String) :
    ((w.built left ns).built right ms).attempt (.reduce kind 2) =
      .ok (w.built (.branch kind [left, right]) (ns ++ ms)) := by
  have hstack : ((w.built left ns).built right ms).stack.reduce kind 2 =
      .ok (w.stack.cons (.branch kind [left, right])) := by
    refine BuildStack.reduce_eq_ok_iff.2 ⟨by simp [hk], ?_, rfl, rfl⟩
    rw [size_stack_built, size_stack_built]
    omega
  rw [attempt_plain h.built.built.failed (BuildOp.isPlain_reduce kind 2), BuildStack.perform, hstack]
  simp [Workspace.built, Except.map]

end Workspace

/-! ### The calls of a derivation -/

theorem Operator.isLeaf_kind {level : Level} (operator : Operator level) :
    operator.kind.isLeaf = false := by cases operator <;> rfl

mutual

/-- The calls of a phrase put its tree on the stack and its names into the table. -/
theorem Phrase.follow_script {part : Option Level} :
    ∀ (p : Phrase part) {w : Workspace}, w.Open →
      w.follow p.script = .ok (w.built (p.node w.symbols.size) (Token.names p.tokens))
  | .atom a, w, h => by
    rw [Phrase.script, Workspace.follow, Workspace.attempt_atom h]
    rfl
  | .paren inner, w, h => by
    rw [Phrase.script, inner.follow_script h, Phrase.tokens, Token.names_cons rfl,
      Token.names_append, Token.names_cons rfl, Token.names_nil, List.append_nil, Phrase.node]
  | .chain first more, w, h => by
    rw [Phrase.script, Workspace.follow_append, first.follow_script h]
    change (w.built _ _).follow more.script = _
    rw [more.follow_script h, Phrase.tokens, Token.names_append, Phrase.node]

/-- The calls of a tail put its tree in place of that on its left. -/
theorem Tail.follow_script {level : Level} :
    ∀ (m : Tail level) {w : Workspace}, w.Open → ∀ (left : Node) (ns : List String),
      (w.built left ns).follow m.script =
        .ok (w.built (m.node (w.symbols.size + ns.length) left) (ns ++ Token.names m.tokens))
  | .nil, w, h, left, ns => by
    rw [Tail.tokens, Token.names_nil, List.append_nil]
    rfl
  | .cons operator operand more, w, h, left, ns => by
    have hpair := Workspace.attempt_pair h operator.isLeaf_kind left
      (operand.node (w.symbols.size + ns.length)) ns (Token.names operand.tokens)
    have hmore := more.follow_script h
      (.branch operator.kind [left, operand.node (w.symbols.size + ns.length)])
      (ns ++ Token.names operand.tokens)
    -- The names of the left tree are in the table already, so the operand counts from there.
    rw [Tail.script, Workspace.follow_append, operand.follow_script h.built,
      Workspace.size_symbols_built]
    change ((w.built left ns).built _ _).attempt _ >>= _ = _
    rw [hpair]
    refine hmore.trans ?_
    rw [Tail.tokens, operator.names_cons, Token.names_append, List.append_assoc,
      List.length_append, ← Nat.add_assoc, Tail.node]

end

/-- The calls of a statement put its tree on the stack and its names into the table. -/
theorem Statement.follow_script (s : Statement) {w : Workspace} (h : w.Open) :
    w.follow s.script = .ok (w.built (s.nodeFrom w.symbols.size) (Token.names s.tokens)) := by
  cases s with
  | expression e => exact e.follow_script h
  | assign text e =>
    have hname := Workspace.attempt_atom h (.name text)
    have hk : Kind.assign.isLeaf = false := rfl
    have hpair := Workspace.attempt_pair h hk (.leaf .symbol (Int64.ofNat w.symbols.size))
      (e.node (w.symbols.size + 1)) [text] (Token.names e.tokens)
    rw [Statement.script, Workspace.follow]
    change w.attempt (Atom.name text).op >>= _ = _
    rw [hname]
    change (w.built (.leaf .symbol _) [text]).follow (e.script ++ [.reduce .assign 2]) = _
    rw [Workspace.follow_append, e.follow_script h.built, Workspace.size_symbols_built]
    change ((w.built (.leaf .symbol _) [text]).built (e.node (w.symbols.size + 1)) _).attempt _ >>=
      _ = _
    rw [hpair]
    rfl

/-! ### The calls of any recognition -/

/-- The goals find the trees that they reduce, if there are `count` trees on the stack. -/
def Goal.Ready : List Goal → Nat → Prop
  | [], _ => True
  | .statement :: goals, count => Ready goals (count + 1)
  | .expression _ :: goals, count => Ready goals (count + 1)
  | .value :: goals, count => Ready goals (count + 1)
  | .more _ :: goals, count => 1 ≤ count ∧ Ready goals count
  | .reduce kind :: goals, count => kind.isLeaf = false ∧ 2 ≤ count ∧ Ready goals (count - 1)
  | .close :: goals, count => Ready goals count
  | .finish :: goals, count => Ready goals count

theorem Goal.ready_goal_cons (part : Option Level) (goals : List Goal) (count : Nat) :
    Ready (Level.goal part :: goals) count ↔ Ready goals (count + 1) := by
  cases part <;> exact Iff.rfl

/-- A reduction whose turn has come finds two trees, if it is ready. -/
theorem Goal.exists_of_ready_reduce {kind : Kind} {goals : List Goal} {heights : List Nat}
    (h : Ready (.reduce kind :: goals) heights.length) :
    ∃ right left more, heights = right :: left :: more := by
  obtain _ | ⟨right, _ | ⟨left, more⟩⟩ := heights
  · exact absurd h.2.1 (by simp)
  · exact absurd h.2.1 (by simp)
  · exact ⟨right, left, more, rfl⟩

namespace Recognition

/-- The calls issued so far are carried out from `w`, they leave a tree for every height, and the
    goals left are ready for these trees. -/
structure Sound (w : Workspace) (r : Recognition) : Prop where
  follow : ∃ v : Workspace, w.follow r.issued.reverse = .ok v ∧ v.Open ∧
    v.stack.size = r.heights.length
  ready : Goal.Ready r.goals r.heights.length

variable {b : Bounds} {w : Workspace} {goals goals' : List Goal} {rest rest' : List Token}
  {nesting nesting' : Nat} {heights : List Nat} {issued : Script}

/-- Goals, tokens and nesting may change as long as the goals are ready. -/
theorem Sound.mono (h : Sound w ⟨goals, rest, nesting, heights, issued⟩)
    (hr : Goal.Ready goals' heights.length) :
    Sound w ⟨goals', rest', nesting', heights, issued⟩ := ⟨h.follow, hr⟩

/-- The call for an atom can be issued whenever one more tree is waited for. -/
theorem Sound.atom (h : Sound w ⟨goals, rest, nesting, heights, issued⟩) (a : Atom)
    (hr : Goal.Ready goals' (heights.length + 1)) :
    Sound w ⟨goals', rest', nesting', 1 :: heights, a.op :: issued⟩ := by
  obtain ⟨v, hv, ho, hs⟩ := h.follow
  refine ⟨⟨v.built (a.node v.symbols.size) (Token.names [a.token]), ?_, ho.built, ?_⟩, hr⟩
  · rw [List.reverse_cons, Workspace.follow_append, hv]
    change v.attempt a.op >>= _ = _
    rw [Workspace.attempt_atom ho]
    rfl
  · rw [Workspace.size_stack_built, hs, List.length_cons]

/-- A reduction can be issued whenever its goal is ready. -/
theorem Sound.reduce {kind : Kind} {left right height : Nat}
    (h : Sound w ⟨.reduce kind :: goals, rest, nesting, right :: left :: heights, issued⟩) :
    Sound w ⟨goals, rest, nesting, height :: heights, .reduce kind 2 :: issued⟩ := by
  obtain ⟨⟨v, hv, ho, hs⟩, hk, -, hr⟩ := h
  obtain ⟨s, hstack⟩ := BuildStack.exists_reduce hk
    (hs ▸ Nat.le_add_left 2 heights.length : 2 ≤ v.stack.size)
  have hsize := BuildStack.size_of_reduce hstack
  obtain ⟨-, -, -, hc⟩ := BuildStack.reduce_eq_ok_iff.1 hstack
  refine ⟨⟨{ v with stack := s }, ?_, ⟨ho.failed, ?_⟩, ?_⟩, hr⟩
  · rw [List.reverse_cons, Workspace.follow_append, hv]
    change v.attempt (.reduce kind 2) >>= _ = _
    rw [Workspace.attempt_plain ho.failed (BuildOp.isPlain_reduce kind 2), BuildStack.perform, hstack]
    rfl
  · rw [← ho.limits, Workspace.limits, hc, Workspace.limits]
  · rw [hs, List.length_cons, List.length_cons] at hsize
    exact Nat.add_right_cancel hsize

/-- Every move keeps the goals ready. -/
theorem Move.ready {r s : Recognition} (h : Move b r s)
    (hr : Goal.Ready r.goals r.heights.length) : Goal.Ready s.goals s.heights.length := by
  cases h with
  | assign text => exact ⟨rfl, Nat.le_add_left 2 _, hr⟩
  | descend level => exact (Goal.ready_goal_cons _ _ _).2 ⟨Nat.le_add_left 1 _, hr⟩
  | operator operator =>
    obtain ⟨hc, hr⟩ := hr
    exact (Goal.ready_goal_cons _ _ _).2 ⟨operator.isLeaf_kind, Nat.succ_le_succ hc, hc, hr⟩
  | stop h => exact hr.2
  | reduce kind =>
    obtain ⟨right, left, heights, rfl⟩ := Goal.exists_of_ready_reduce hr
    exact hr.2.2
  | _ => exact hr

/-- Every move keeps recognition sound. -/
theorem Sound.move {r s : Recognition} (h : Sound w r) (hm : Move b r s) : Sound w s := by
  have hr := hm.ready h.ready
  cases hm with
  | assign text => exact h.atom (.name text) hr
  | atom a => exact h.atom a hr
  | reduce kind =>
    obtain ⟨right, left, heights, rfl⟩ := Goal.exists_of_ready_reduce h.ready
    exact h.reduce
  | _ => exact h.mono hr

/-- Recognition stays sound to its end. -/
theorem Sound.run {r : Recognition} (h : Sound w r) : Sound w (r.run b) :=
  run_induction h fun _ _ hm h => h.move hm

theorem sound_start {w : Workspace} (hw : w.Open) (hs : w.stack.size = 0) (tokens : List Token) :
    Sound w (start tokens) :=
  ⟨⟨w, rfl, hw, hs⟩, trivial⟩

end Recognition

namespace Script

variable {b : Bounds} {w : Workspace}

/-- The calls for the tokens of a program that keeps the bounds are those of its statement. -/
theorem ofTokens_tokens (p : Program) (hn : p.nesting ≤ b.maxNesting)
    (hf : p.node.Fits b.maxDepth) : ofTokens b p.tokens = p.statement.script := by
  rw [ofTokens, p.run_start hn hf, Recognition.script]
  simp

/-- The calls for the tokens of a program that keeps the bounds build its tree. -/
theorem follow_ofTokens (p : Program) (hn : p.nesting ≤ b.maxNesting) (hf : p.node.Fits b.maxDepth)
    (hw : w.Open) (hs : w.symbols.size = 0) :
    w.follow (ofTokens b p.tokens) = .ok (w.built p.node p.names) := by
  rw [ofTokens_tokens p hn hf, p.statement.follow_script hw, hs, p.statement.nodeFrom_zero,
    p.names_eq, Program.node]

/-- The calls for all other tokens end with a mark of failure. -/
theorem follow_ofTokens_of_not {tokens : List Token}
    (h : ¬∃ p : Program, p.tokens = tokens ∧ p.nesting ≤ b.maxNesting ∧ p.node.Fits b.maxDepth)
    (hw : w.Open) (hs : w.stack.size = 0) :
    ∃ v : Workspace, w.follow (ofTokens b tokens) = .ok v ∧ v.failed = true := by
  obtain ⟨⟨v, hv, -, -⟩, -⟩ := (Recognition.sound_start hw hs tokens).run (b := b)
  rw [← Recognition.run_start_eq_nil_iff] at h
  refine ⟨{ v with failed := true }, ?_, rfl⟩
  rw [ofTokens, Recognition.script, Workspace.follow_append, hv]
  simp [h]
  rfl

end Script

end Arbor
