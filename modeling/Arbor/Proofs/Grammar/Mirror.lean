import Arbor.Proofs.Grammar.Recursion
import Arbor.Proofs.Node.Walk

/-!
# The heights mirror the stack

Recognition keeps the heights of the trees that its calls build, and never looks at the trees.
This is enough because the heights are those of the trees on the stack, in their order, at all times
(`Recognition.Mirrors`, `Recognition.Mirrors.move`). So a reduction finds the two trees whose
heights it has compared (`Recognition.exists_pair`), and a call that returns has put its tree on top
of what it found there (`Recognition.IsTrace.exists_tree_of_returned`). All this holds under any
limits, as long as they let the calls be carried out, and the limits are all that can keep them from
it (`Script.follow_ofTokens_eq_error`).
-/

namespace Arbor

/-! ### Scripts that limits alone refuse -/

namespace Workspace

variable {w v : Workspace} {script : Script}

/-- A script that is carried out without limits comes to the same under limits, or exceeds one. -/
theorem follow_eq_of_unbounded (hf : w.failed = false) (hm : .setError ∉ script)
    (h : (w.limitTo .unbounded).follow script = .ok v) :
    w.follow script =
      match w.limits.firstExceeded? w.extent script.demands with
      | some violation => .error violation
      | none => .ok (v.limitTo w.limits) :=
  follow_limitTo (w := w.limitTo .unbounded) hf hm h w.limits

/-- A script that puts a tree on the stack without limits does so under limits, if it is carried
    out. -/
theorem nodes_of_follow {node : Node} {names : List String} (hf : w.failed = false)
    (hm : .setError ∉ script)
    (h : (w.limitTo .unbounded).follow script = .ok ((w.limitTo .unbounded).built node names))
    (hv : w.follow script = .ok v) : v.stack.nodes = node :: w.stack.nodes := by
  rw [follow_eq_of_unbounded hf hm h] at hv
  split at hv
  · cases hv
  · cases hv
    rfl

end Workspace

namespace Script

/-- Under limits, the calls for tokens run into these limits and into nothing else. -/
theorem follow_ofTokens_eq_error {w : Workspace} {b : Bounds} {tokens : List Token} {v : Violation}
    (hf : w.failed = false) (hs : w.stack.size = 0)
    (h : w.follow (ofTokens b tokens) = .error v) :
    (∃ capacity ∈ w.limits.maxStackDepth, v = .stackOverflow capacity) ∨
      ∃ capacity ∈ w.limits.maxSymbols, v = .symbolCapacityExceeded capacity := by
  have hopen : (w.limitTo .unbounded).Open := ⟨hf, rfl⟩
  obtain ⟨⟨u, hu, -, -⟩, -⟩ := (Recognition.sound_start hopen hs tokens).run (b := b)
  obtain ⟨past, htrace⟩ := Recognition.exists_trace_run b tokens
  have hm : .setError ∉ ((Recognition.start tokens).run b).issued.reverse :=
    setError_notMem_of_moves fun op hop => htrace.issued_moves op (List.mem_reverse.1 hop)
  rw [ofTokens, Recognition.script, Workspace.follow_append,
    Workspace.follow_eq_of_unbounded hf hm hu] at h
  split at h
  · next violation hfirst =>
    cases h
    rcases Limits.firstExceeded?_eq_some hfirst with ⟨capacity, hc, -, rfl⟩ | ⟨capacity, hc, -, rfl⟩
    · exact .inl ⟨capacity, hc, rfl⟩
    · exact .inr ⟨capacity, hc, rfl⟩
  · -- The mark of failure is carried out as well.
    split at h <;> cases h

end Script

/-- The goals that are calls of a rule of the grammar. -/
def Goal.IsRule (goal : Goal) : Prop := goal = .statement ∨ ∃ part, goal = Level.goal part

namespace Recognition

variable {b : Bounds} {tokens : List Token} {c r s : Recognition} {past : List Recognition}
  {w v : Workspace} {goals goals' : List Goal} {rest rest' : List Token}
  {nesting nesting' : Nat} {heights : List Nat} {issued : Script}

/-! ### What the heights are -/

/-- Whenever the calls issued are carried out, the heights are those of the trees on the stack. -/
def Mirrors (w : Workspace) (r : Recognition) : Prop :=
  ∀ v, w.follow r.issued.reverse = .ok v →
    v.failed = false ∧ v.stack.nodes.map Node.height = r.heights

/-- A call that is issued is made behind those issued before. -/
theorem exists_attempt {op : BuildOp} (h : w.follow (op :: issued).reverse = .ok v) :
    ∃ u, w.follow issued.reverse = .ok u ∧ u.attempt op = .ok v := by
  rw [List.reverse_cons] at h
  obtain ⟨u, hu, hop⟩ := Workspace.exists_of_follow_append h
  obtain ⟨t, ht, hnil⟩ := Workspace.exists_of_follow_cons hop
  cases hnil
  exact ⟨u, hu, ht⟩

theorem Mirrors.atom (h : Mirrors w ⟨goals, rest, nesting, heights, issued⟩) (a : Atom) :
    Mirrors w ⟨goals', rest', nesting', 1 :: heights, a.op :: issued⟩ := by
  intro v hv
  obtain ⟨u, hu, ha⟩ := exists_attempt hv
  obtain ⟨hf, hheights⟩ := h u hu
  obtain ⟨-, hs, -⟩ := Workspace.attempt_eq_ok hf a.op_ne_setError ha
  rw [BuildStack.perform_atom] at hs
  obtain ⟨-, hpush⟩ := BuildStack.push_eq_ok_iff.1 hs
  refine ⟨Workspace.failed_of_attempt hf a.op_ne_setError ha, ?_⟩
  change List.map _ _ = 1 :: heights
  rw [hpush, BuildStack.cons, List.map_cons, a.height_node, hheights]

/-- The trees whose heights a reduction compares are on the stack, and it can be made. -/
theorem exists_pair {kind : Kind} (hf : v.failed = false)
    (hheights : v.stack.nodes.map Node.height = heights)
    (hready : Goal.Ready (.reduce kind :: goals) heights.length) :
    ∃ right left below, v.stack.nodes = right :: left :: below ∧
      ∃ u, v.attempt (.reduce kind 2) = .ok u ∧ u.failed = false ∧
        u.stack.nodes = .branch kind [left, right] :: below := by
  subst hheights
  obtain ⟨hk, htwo, -⟩ := hready
  rw [List.length_map, ← v.stack.size_eq] at htwo
  obtain ⟨stack, hstack⟩ := BuildStack.exists_reduce hk htwo
  obtain ⟨-, -, hnodes, -⟩ := BuildStack.reduce_eq_ok_iff.1 hstack
  rw [v.stack.size_eq] at htwo
  match hn : v.stack.nodes, htwo with
  | right :: left :: below, _ =>
    refine ⟨right, left, below, rfl, { v with stack }, ?_, hf, ?_⟩
    · rw [Workspace.attempt_plain hf (BuildOp.isPlain_reduce kind 2), BuildStack.perform, hstack]
      rfl
    · rw [hnodes, hn]
      rfl

theorem Mirrors.reduce {kind : Kind} {left right : Nat}
    (h : Mirrors w ⟨.reduce kind :: goals, rest, nesting, right :: left :: heights, issued⟩)
    (hready : Goal.Ready (.reduce kind :: goals) (right :: left :: heights).length) :
    Mirrors w
      ⟨goals, rest, nesting, (1 + max right left) :: heights, .reduce kind 2 :: issued⟩ := by
  intro v hv
  obtain ⟨u, hu, ha⟩ := exists_attempt hv
  obtain ⟨hf, hheights⟩ := h u hu
  obtain ⟨first, second, below, hnodes, t, ht, hft, htop⟩ := exists_pair hf hheights hready
  cases ht.symm.trans ha
  rw [hnodes, List.map_cons, List.map_cons] at hheights
  obtain ⟨rfl, hrest⟩ := List.cons.inj hheights
  obtain ⟨rfl, rfl⟩ := List.cons.inj hrest
  refine ⟨hft, ?_⟩
  rw [htop, List.map_cons, Node.height_pair, Nat.max_comm]

/-- Every move keeps the heights those of the trees. -/
theorem Mirrors.move (h : Mirrors w r) (hready : Goal.Ready r.goals r.heights.length)
    (hm : Move b r s) : Mirrors w s := by
  cases hm with
  | assign text => exact h.atom (.name text)
  | atom a => exact h.atom a
  | reduce kind =>
    obtain ⟨right, left, heights, rfl⟩ := Goal.exists_of_ready_reduce hready
    have hmax : [right, left].foldr max 0 = max right left := by simp
    simpa [hmax] using h.reduce hready
  | _ => exact h

/-- In a workspace without trees, recognition keeps the heights of the trees on the stack. -/
theorem IsTrace.mirrors (h : IsTrace b tokens (r :: past)) (hf : w.failed = false)
    (hs : w.stack.nodes = []) : Goal.Ready r.goals r.heights.length ∧ Mirrors w r := by
  refine h.invariant (P := fun r => Goal.Ready r.goals r.heights.length ∧ Mirrors w r)
    ⟨trivial, ?_⟩ fun r s hm hr => ⟨hm.ready hr.1, hr.2.move hr.1 hm⟩
  rintro v ⟨⟩
  exact ⟨hf, by rw [hs]; rfl⟩

/-! ### What calls leave on the stack -/

/-- A call that returns has issued calls that build one tree, whatever was on the stack before. -/
theorem IsTrace.exists_script_of_returned {goal : Goal} (h : IsTrace b tokens (r :: past))
    (hc : c ∈ returned (r :: past)) (hg : c.goals = goal :: goals) (hrule : goal.IsRule) :
    ∃ (script : Script) (height : Nat), r.issued = script.reverse ++ c.issued ∧
      r.heights = height :: c.heights ∧ ∀ u : Workspace, u.Open → ∃ node names,
        u.follow script = .ok (u.built node names) ∧ node.height = height := by
  obtain ⟨before, hbefore⟩ := h.exists_of_mem_returned hc
  have hn := hbefore.nested.nesting_le
  obtain ⟨-, hrun⟩ := h.run_of_mem_returned hc hg
  rcases hrule with rfl | ⟨part, rfl⟩
  · obtain ⟨t, -, -, hheights, hissued⟩ := exists_statement_of_run hn hrun
    exact ⟨t.script, t.height, hissued, hheights,
      fun u hu => ⟨_, _, t.follow_script hu, t.height_nodeFrom _⟩⟩
  · obtain ⟨p, -, -, hheights, hissued⟩ := exists_phrase_of_run hn hrun
    exact ⟨p.script, p.height, hissued, hheights,
      fun u hu => ⟨_, _, p.follow_script hu, p.height_node _⟩⟩

/-- A call that returns has left one tree on top of those that were on the stack when it began. -/
theorem IsTrace.exists_tree_of_returned {goal : Goal} (h : IsTrace b tokens (r :: past))
    (hf : w.failed = false) (hs : w.stack.nodes = []) (hv : w.follow r.issued.reverse = .ok v)
    (hc : c ∈ returned (r :: past)) (hg : c.goals = goal :: goals) (hrule : goal.IsRule) :
    ∃ (u : Workspace) (node : Node), w.follow c.issued.reverse = .ok u ∧
      v.stack.nodes = node :: u.stack.nodes ∧ r.heights = node.height :: c.heights := by
  obtain ⟨script, height, hissued, hheights, hbuild⟩ := h.exists_script_of_returned hc hg hrule
  obtain ⟨before, hbefore⟩ := h.exists_of_mem_returned hc
  have hm : .setError ∉ script := Script.setError_notMem_of_moves fun op hop =>
    h.issued_moves op (by rw [hissued]; simp [hop])
  rw [hissued, List.reverse_append, List.reverse_reverse] at hv
  obtain ⟨u, hu, hv⟩ := Workspace.exists_of_follow_append hv
  obtain ⟨hfu, -⟩ := (hbefore.mirrors hf hs).2 u hu
  obtain ⟨node, names, hfollow, rfl⟩ := hbuild (u.limitTo .unbounded) ⟨hfu, rfl⟩
  exact ⟨u, node, hu, Workspace.nodes_of_follow hfu hm hfollow hv, hheights⟩

/-- A reduction is refused if and only if the tree that it would build is too tall. -/
theorem next?_reduce_eq_none_iff {kind : Kind} {left right : Node} {below : List Nat}
    (hg : r.goals = .reduce kind :: goals)
    (hheights : r.heights = right.height :: left.height :: below) :
    next? b r = none ↔ b.maxDepth < (Node.branch kind [left, right]).height := by
  rw [next?, hg, Node.height_pair, Nat.max_comm]
  simp [advance, reduce, pairHeight, hheights]

/-- The heights that recognition keeps are those of the trees on the stack, wherever it is, as long
    as the limits of the session let its calls be carried out. Each call of a rule that returns has
    left one tree on top of those it found, and their heights as they were. A reduction finds two
    trees, is refused exactly if the tree over them is too tall, and is carried out otherwise: no
    calls for tokens find too few trees on the stack. -/
theorem heights_mirror_stack (limits : Limits) (input : InputChannel) (b : Bounds)
    (tokens : List Token) :
    let w : Workspace := { Workspace.new limits with input }
    (∀ kind needed available,
      w.follow (Script.ofTokens b tokens) ≠ .error (.stackUnderflow kind needed available)) ∧
    ∀ (r : Recognition) (past : List Recognition) (v : Workspace),
      IsTrace b tokens (r :: past) → w.follow r.issued.reverse = .ok v →
        r.issued.reverse <+: Script.ofTokens b tokens ∧
        v.stack.nodes.map Node.depth = r.heights ∧
        (∀ c ∈ returned (r :: past), ∀ goal goals, c.goals = goal :: goals → goal.IsRule →
          ∃ u node, w.follow c.issued.reverse = .ok u ∧ v.stack.nodes = node :: u.stack.nodes ∧
            r.heights = node.depth :: c.heights) ∧
        ∀ kind goals, r.goals = .reduce kind :: goals →
          ∃ right left below, v.stack.nodes = right :: left :: below ∧
            (next? b r = none ↔ b.maxDepth < (Node.branch kind [left, right]).depth) ∧
            ∃ u, v.attempt (.reduce kind 2) = .ok u ∧
              u.stack.nodes = .branch kind [left, right] :: below := by
  intro w
  refine ⟨fun kind needed available h => ?_, fun r past v ht hv => ?_⟩
  · rcases Script.follow_ofTokens_eq_error rfl rfl h with ⟨_, -, h⟩ | ⟨_, -, h⟩ <;> cases h
  · obtain ⟨hready, hmirrors⟩ := ht.mirrors (w := w) rfl rfl
    obtain ⟨hf, hheights⟩ := hmirrors v hv
    have hdepth : Node.depth = Node.height := funext Node.depth_eq_height
    rw [hdepth]
    refine ⟨ht.issued_prefix, hheights, fun c hc goal goals hg hrule =>
      ht.exists_tree_of_returned rfl rfl hv hc hg hrule, fun kind goals hg => ?_⟩
    rw [hg] at hready
    obtain ⟨right, left, below, hnodes, u, hu, -, htop⟩ := exists_pair hf hheights hready
    rw [hnodes] at hheights
    exact ⟨right, left, below, hnodes, next?_reduce_eq_none_iff hg hheights.symm, u, hu, htop⟩

/-- The sum in `1 + 2` is refused where trees may have one level: both operands are on the stack,
    the second one left there by the product that returns. -/
theorem heights_mirror_stack_sum :
    let w : Workspace := { Workspace.new {} with input := .ofBytes .empty }
    ∃ (c r : Recognition) (past : List Recognition) (u v : Workspace),
      IsTrace { maxDepth := 1 } [.number 1, .plus, .number 2] (r :: past) ∧
        w.follow r.issued.reverse = .ok v ∧ v.stack.nodes.map Node.depth = [1, 1] ∧
          c ∈ returned (r :: past) ∧ w.follow c.issued.reverse = .ok u ∧
            (∃ node, v.stack.nodes = node :: u.stack.nodes) ∧ r.goals.head? = some (.reduce .add) ∧
              ∃ left right, v.stack.nodes = [right, left] ∧
                1 < (Node.branch .add [left, right]).depth := by
  let tokens : List Token := [.number 1, .plus, .number 2]
  let goals : List Goal := [.reduce .add, .more .sum, .more .comparison, .finish]
  let c : Recognition := ⟨.expression .product :: goals, [.number 2], 0, [1], [.pushNumber 1]⟩
  let r : Recognition := ⟨goals, [], 0, [1, 1], [.pushNumber 2, .pushNumber 1]⟩
  have h : IsTrace { maxDepth := 1 } tokens (r :: trace { maxDepth := 1 } tokens 9) :=
    isTrace_trace { maxDepth := 1 } tokens 10
  obtain ⟨-, hmirror⟩ := heights_mirror_stack {} (.ofBytes .empty) { maxDepth := 1 } tokens
  obtain ⟨-, hheights, hcalls, hpairs⟩ := hmirror r _ _ h rfl
  have hreturned : c ∈ returned (r :: trace { maxDepth := 1 } tokens 9) := by decide
  obtain ⟨u, node, hu, hnodes, -⟩ := hcalls c hreturned _ goals rfl (.inr ⟨some .product, rfl⟩)
  obtain ⟨right, left, below, hpair, hrefused, -⟩ := hpairs .add _ rfl
  cases hpair
  exact ⟨c, r, _, u, _, h, rfl, hheights, hreturned, hu, ⟨node, hnodes⟩, rfl, _, _, rfl,
    hrefused.1 rfl⟩

end Recognition

end Arbor
