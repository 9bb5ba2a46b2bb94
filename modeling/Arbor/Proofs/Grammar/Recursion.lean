import Arbor.Proofs.Grammar.Trace

/-!
# Bounded recursion

Every move leaves less work to do than there was before, so a trace is no longer than the work that
the tokens make (`Recognition.IsTrace.length_add_work_le`). And the calls under way can be counted
in the goals that are left, because each call that has gone on to the goals of its parts keeps one
more goal behind them until it returns (`Goal.Leaves`, `Recognition.IsTrace.calls_tail`). So there
are as many parentheses open as there are ends of parentheses among the goals, and an expression
begins only where all others under way stand in parentheses (`Recognition.Nested`).
-/

namespace Arbor

/-! ### Goals in one another -/

namespace Goal

/-- A call that began with the first goal keeps the second one behind the goals of its parts. -/
inductive Leaves : Goal → Goal → Prop
  | value : Leaves .value .close
  | expression (level : Level) : Leaves (.expression level) (.more level)

theorem Leaves.count_goal_cons {call left : Goal} (h : Leaves call left) (part : Option Level)
    (goals : List Goal) : (Level.goal part :: goals).count left = goals.count left := by
  cases h <;> cases part <;> simp [Level.goal]

theorem Leaves.count_reduce_cons {call left : Goal} (h : Leaves call left) (kind : Kind)
    (goals : List Goal) : (reduce kind :: goals).count left = goals.count left := by
  cases h <;> simp

/-- The goals behind a goal fit it. A statement or an expression begins, and goes on, where every
    expression that has begun is in a parenthesis of its own, so that there are as many of these as
    ends of parentheses. Its parts stand in one expression more. -/
def Sits (goals : List Goal) : Goal → Prop
  | .statement | .expression .comparison | .more .comparison =>
    goals.count (.more .comparison) = goals.count .close
  | .expression _ | .more _ | .value | .close =>
    goals.count (.more .comparison) = goals.count .close + 1
  | .reduce _ | .finish => True

/-- Every goal fits those behind it. -/
def Nests : List Goal → Prop
  | [] => True
  | goal :: goals => goal.Sits goals ∧ Nests goals

variable {goals : List Goal}

theorem sits_reduce_cons {goal : Goal} {kind : Kind} :
    goal.Sits (.reduce kind :: goals) ↔ goal.Sits goals := by
  rcases goal with _ | (_ | _ | _) | (_ | _ | _) | _ | _ | _ | _ <;> simp [Sits]

theorem sits_expression_iff {level : Level} :
    (expression level).Sits goals ↔ (more level).Sits goals := by
  cases level <;> exact Iff.rfl

/-- An operand stands in its expression. -/
theorem sits_tighter {level : Level} (h : (more level).Sits goals) :
    (Level.goal level.tighter).Sits (.more level :: goals) := by
  cases level <;> simpa [Sits, Level.goal, Level.tighter] using h

/-- All expressions that have begun are in parentheses, but for one. -/
theorem Nests.count_le (h : Nests goals) :
    goals.count (.more .comparison) +
      (if goals.head? = some (.expression .comparison) then 1 else 0) ≤ goals.count .close + 1 := by
  induction goals with
  | nil => simp
  | cons goal goals ih =>
    have hgoals := ih h.2
    obtain ⟨hsits, -⟩ := h
    rcases goal with _ | (_ | _ | _) | (_ | _ | _) | _ | _ | _ | _ <;>
      simp [Sits] at hsits ⊢ <;> split at hgoals <;> omega

end Goal

namespace Recognition

variable {b : Bounds} {tokens : List Token} {c r s : Recognition} {past : List Recognition}

/-! ### Work and tokens -/

theorem work_lt_of_next? (h : next? b r = some s) : s.work < r.work := by
  obtain ⟨_ | ⟨goal, goals⟩, rest, nesting, heights, issued⟩ := r
  · cases h
  · have hwork := work_advance h
    simp only [work, Goal.weights] at hwork ⊢
    omega

theorem work_start_le (tokens : List Token) : (start tokens).work ≤ 10 * tokens.length + 10 := by
  have hlength := (List.dropWhile_suffix (l := tokens) (· = .terminator)).length_le
  simp only [work, start, Goal.weights, Goal.weight]
  omega

/-- The moves made and the work left are bounded by the number of tokens. -/
theorem IsTrace.length_add_work_le (h : IsTrace b tokens (r :: past)) :
    past.length + r.work ≤ 10 * tokens.length + 10 := by
  refine h.induction (P := fun r past => past.length + r.work ≤ 10 * tokens.length + 10) ?_ ?_
  · rw [List.length_nil, Nat.zero_add]
    exact work_start_le tokens
  · intro r s past _ hs hbefore
    have hless := work_lt_of_next? hs
    rw [List.length_cons]
    omega

/-- A move only takes tokens from the front. -/
theorem Move.rest_suffix (h : Move b r s) : s.rest <:+ r.rest := by
  cases h with
  | assign text => exact ⟨[_, _], rfl⟩
  | operator operator => exact ⟨[_], rfl⟩
  | atom a => exact ⟨[_], rfl⟩
  | paren h => exact ⟨[_], rfl⟩
  | close => exact ⟨[_], rfl⟩
  | finish m => exact List.nil_suffix
  | _ => exact List.suffix_rfl

theorem IsTrace.rest_suffix (h : IsTrace b tokens (r :: past)) : r.rest <:+ tokens :=
  h.invariant (P := fun r => r.rest <:+ tokens) (List.dropWhile_suffix _)
    fun _ _ hmove hr => hmove.rest_suffix.trans hr

/-! ### Parentheses and goals -/

/-- There are as many parentheses open as are to be closed, no more than the bounds allow, and the
    goals fit in one another. -/
structure Nested (b : Bounds) (r : Recognition) : Prop where
  nesting_eq : r.nesting = r.goals.count .close
  nesting_le : r.nesting ≤ b.maxNesting
  nests : Goal.Nests r.goals

theorem nested_start (b : Bounds) (tokens : List Token) : Nested b (start tokens) :=
  ⟨rfl, Nat.zero_le _, rfl, trivial, trivial⟩

/-- Every move keeps this. -/
theorem Move.nested (h : Move b r s) (hr : Nested b r) : Nested b s := by
  obtain ⟨heq, hle, hnests⟩ := hr
  cases h with
  | assign text =>
    exact ⟨by simpa using heq, hle, Goal.sits_reduce_cons.2 hnests.1, trivial, hnests.2⟩
  | plain h => exact ⟨by simpa using heq, hle, hnests.1, hnests.2⟩
  | descend level =>
    have hmore := Goal.sits_expression_iff.1 hnests.1
    refine ⟨?_, hle, Goal.sits_tighter hmore, hmore, hnests.2⟩
    cases level <;> simpa [Level.goal, Level.tighter] using heq
  | @operator _ _ _ _ _ level operator =>
    refine ⟨?_, hle, Goal.sits_reduce_cons.2 (Goal.sits_tighter hnests.1), trivial, hnests⟩
    cases level <;> simpa [Level.goal, Level.tighter] using heq
  | paren h =>
    refine ⟨by simpa using heq, h, ?_, hnests⟩
    simpa [Goal.Sits] using hnests.1
  | close =>
    have hopen := Nat.sub_eq_of_eq_add (heq.trans List.count_cons_self)
    exact ⟨hopen, Nat.le_trans (Nat.sub_le _ _) hle, hnests.2⟩
  | _ => exact ⟨by simpa using heq, hle, hnests.2⟩

theorem IsTrace.nested (h : IsTrace b tokens (r :: past)) : Nested b r :=
  h.invariant (nested_start b tokens) fun _ _ => Move.nested

/-! ### Counting calls -/

/-- How many calls began with a goal. -/
def calls (goal : Goal) (states : List Recognition) : Nat :=
  states.countP (·.goals.head? = some goal)

/-- The values under way that have read the parenthesis they begin with. -/
def inParenthesis : List Recognition → List Recognition
  | [] => []
  | r :: past => (underWay (r :: past)).filter fun c =>
    c.goals.head? = some .value ∧ c.rest.head? = some .leftParen ∧ r.rest.length < c.rest.length

variable {call left : Goal}

/-- The new goals of a move stand in front of one that the call keeps, if it began with the first
    goal or has kept it so far, and of none otherwise. -/
theorem Move.exists_goals (h : Move b r s) (hleaves : Goal.Leaves call left) :
    ∃ (goal : Goal) (goals new : List Goal), r.goals = goal :: goals ∧ s.goals = new ++ goals ∧
      ∀ lower, lower <:+ new → lower ≠ [] →
        lower.count left = (if goal = call then 1 else 0) + [goal].count left := by
  have hgoal := hleaves.count_goal_cons
  have hreduce := hleaves.count_reduce_cons
  cases h with
  | assign text =>
    refine ⟨_, _, [Level.goal (some .comparison), _], rfl, rfl, ?_⟩
    cases hleaves <;> simp [List.suffix_cons_iff, hgoal, hreduce]
  | plain h =>
    refine ⟨_, _, [Level.goal (some .comparison)], rfl, rfl, ?_⟩
    cases hleaves <;> simp [List.suffix_cons_iff, hgoal]
  | descend level =>
    refine ⟨_, _, [_, _], rfl, rfl, ?_⟩
    cases hleaves <;> simp [List.suffix_cons_iff, hgoal, List.count_singleton]
  | operator operator =>
    refine ⟨_, _, [_, _, _], rfl, rfl, ?_⟩
    cases hleaves <;> simp [List.suffix_cons_iff, hgoal, hreduce]
  | paren h =>
    refine ⟨_, _, [Level.goal (some .comparison), _], rfl, rfl, ?_⟩
    cases hleaves <;> simp [List.suffix_cons_iff, hgoal]
  | _ => exact ⟨_, _, [], rfl, rfl, fun lower h hne => absurd (List.suffix_nil.1 h) hne⟩

/-- The calls of one kind under way are the last one, if it is of the kind, and those before. -/
theorem calls_underWay : calls call (underWay (r :: past)) =
    (if r.goals.head? = some call then 1 else 0) + calls call (underWay (r :: past)).tail := by
  rw [underWay, List.tail_cons, calls, List.countP_cons, Nat.add_comm]
  simp [calls]

theorem filter_tail_underWay {n : Nat} (hn : n ≤ s.goals.length) :
    (underWay (s :: r :: past)).tail.filter (·.goals.length ≤ n) =
      (underWay (r :: past)).filter (·.goals.length ≤ n) := by
  rw [underWay, List.tail_cons, List.filter_filter]
  refine List.filter_congr fun c _ => ?_
  simp only [Bool.and_eq_left_iff_imp, decide_eq_true_iff]
  exact fun h => Nat.le_trans h hn

theorem filter_underWay_of_lt {n : Nat} (hn : n < r.goals.length) :
    (underWay (r :: past)).filter (·.goals.length ≤ n) =
      (underWay (r :: past)).tail.filter (·.goals.length ≤ n) := by
  rw [underWay, List.filter_cons_of_neg (by simpa using hn), List.tail_cons]

theorem filter_underWay_of_le {n : Nat} (hn : r.goals.length ≤ n) :
    (underWay (r :: past)).filter (·.goals.length ≤ n) = underWay (r :: past) :=
  List.filter_eq_self.2 fun _ hc =>
    decide_eq_true (Nat.le_trans (length_le_of_mem_underWay hc) hn)

theorem filter_tail_underWay_self :
    (underWay (r :: past)).tail.filter (·.goals.length ≤ r.goals.length) =
      (underWay (r :: past)).tail :=
  List.filter_eq_self.2 fun _ hc =>
    decide_eq_true (length_le_of_mem_underWay (List.mem_of_mem_tail hc))

/-- In the goals left, from some place on, there is one for each call under way that began with no
    more goals and has gone on to the goals of its parts. -/
theorem IsTrace.calls_filter (h : IsTrace b tokens (r :: past)) (hleaves : Goal.Leaves call left)
    {lower : List Goal} (hlower : lower <:+ r.goals) :
    calls call ((underWay (r :: past)).tail.filter (·.goals.length ≤ lower.length)) =
      lower.count left := by
  refine h.induction (P := fun r past => ∀ lower, lower <:+ r.goals →
    calls call ((underWay (r :: past)).tail.filter (·.goals.length ≤ lower.length)) =
      lower.count left) ?_ ?_ lower hlower
  · intro lower hlower
    have hnone : left ∉ (start tokens).goals := by cases hleaves <;> simp [start]
    exact (List.count_eq_zero.2 fun hm => hnone (hlower.subset hm)).symm
  · intro r s past _ hs ih lower hlower
    obtain ⟨goal, goals, new, hr, hgoals, hnew⟩ := (move_of_next? hs).exists_goals hleaves
    rw [filter_tail_underWay hlower.length_le]
    -- The goals behind the first one are not touched by the move.
    have hbehind (h : lower <:+ goals) :
        calls call ((underWay (r :: past)).filter (·.goals.length ≤ lower.length)) =
          lower.count left := by
      have hle := h.length_le
      rw [filter_underWay_of_lt (by rw [hr, List.length_cons]; omega)]
      exact ih lower (by rw [hr]; exact h.trans (List.suffix_cons _ _))
    obtain ⟨front, happend⟩ := hlower
    rw [hgoals] at happend
    rcases List.append_eq_append_iff.1 happend with ⟨_ | ⟨first, fresh⟩, rfl, rfl⟩ | ⟨behind, -, h⟩
    · exact hbehind List.suffix_rfl
    · -- A new goal is among them, so the call that was under way last counts as well.
      have hcount := hnew (first :: fresh) (List.suffix_append _ _) (List.cons_ne_nil _ _)
      have hle : r.goals.length ≤ (first :: fresh ++ goals).length := by
        rw [hr]
        simp
      have htail := ih r.goals List.suffix_rfl
      rw [filter_tail_underWay_self] at htail
      rw [filter_underWay_of_le hle, calls_underWay, htail, hr, List.count_append, hcount,
        ← List.singleton_append, List.count_append]
      simp only [List.singleton_append, List.head?_cons, Option.some.injEq]
      omega
    · exact hbehind ⟨behind, h.symm⟩

/-- There is a goal for every call under way that has gone on to the goals of its parts. -/
theorem IsTrace.calls_tail (h : IsTrace b tokens (r :: past)) (hleaves : Goal.Leaves call left) :
    calls call (underWay (r :: past)).tail = r.goals.count left := by
  rw [← h.calls_filter hleaves List.suffix_rfl, filter_tail_underWay_self]

/-- A value under way that has gone on to the goals of its parts has read a parenthesis. -/
theorem IsTrace.rest_of_value (h : IsTrace b tokens (r :: past))
    (hc : c ∈ (underWay (r :: past)).tail) (hv : c.goals.head? = some .value) :
    c.rest.head? = some .leftParen ∧ r.rest.length < c.rest.length := by
  refine h.induction (P := fun r past => c ∈ (underWay (r :: past)).tail →
    c.rest.head? = some .leftParen ∧ r.rest.length < c.rest.length) nofun ?_ hc
  intro r s past _ hs ih hc
  obtain ⟨hc, hle⟩ := List.mem_filter.1 hc
  have hmove := move_of_next? hs
  rw [underWay] at hc
  rcases List.mem_cons.1 hc with rfl | hc
  · cases hmove with
    | paren h => exact ⟨rfl, by simp⟩
    | atom a => exact absurd (of_decide_eq_true hle) (Nat.not_succ_le_self _)
    | _ => cases hv
  · obtain ⟨hparen, hlt⟩ := ih hc
    exact ⟨hparen, Nat.lt_of_le_of_lt hmove.rest_suffix.length_le hlt⟩

/-- The values in their parentheses are those that have gone on to the goals of their parts. -/
theorem IsTrace.length_inParenthesis (h : IsTrace b tokens (r :: past)) :
    (inParenthesis (r :: past)).length = calls .value (underWay (r :: past)).tail := by
  rw [calls, List.countP_eq_length_filter, inParenthesis]
  have hsplit : underWay (r :: past) = r :: (underWay (r :: past)).tail := rfl
  rw [hsplit, List.filter_cons_of_neg (by simp)]
  refine congrArg List.length (List.filter_congr fun c hc => ?_)
  rw [decide_eq_decide]
  exact ⟨And.left, fun hv => ⟨hv, h.rest_of_value hc hv⟩⟩

/-! ### The bounds on recursion -/

/-- A call that returns has read a token at least. -/
theorem IsTrace.exists_rest_of_returned {part : Option Level} {goals : List Goal}
    (h : IsTrace b tokens (r :: past)) (hc : c ∈ returned (r :: past))
    (hg : c.goals = Level.goal part :: goals) :
    ∃ (token : Token) (read : List Token), c.rest = token :: (read ++ r.rest) := by
  obtain ⟨before, hbefore⟩ := h.exists_of_mem_returned hc
  obtain ⟨-, hrun⟩ := h.run_of_mem_returned hc hg
  obtain ⟨p, hrest, -⟩ := exists_phrase_of_run hbefore.nested.nesting_le hrun
  obtain ⟨token, read, hp, -⟩ := p.exists_tokens_eq_cons
  exact ⟨token, read, by rw [hrest, hp, List.cons_append]⟩

/-- No tokens keep recognition from its end, and no tokens make it run out of bounds on the way.
    The moves are bounded by the number of tokens, a phrase that is found takes a token at least,
    and as many parentheses are open as there are values in theirs. So no more expressions are
    under way at a time than the bounds allow parentheses, and one. Whoever stops recognition
    before its end, as a violation of a limit does, cuts its trace off and leaves all this true. -/
theorem recursion_bounded (b : Bounds) (tokens : List Token) :
    (∃ past, IsTrace b tokens ((start tokens).run b :: past)) ∧
      next? b ((start tokens).run b) = none ∧
        ∀ (r : Recognition) (past : List Recognition), IsTrace b tokens (r :: past) →
          past.length + r.work ≤ 10 * tokens.length + 10 ∧ r.rest <:+ tokens ∧
            (∀ c ∈ returned (r :: past), ∀ part goals, c.goals = Level.goal part :: goals →
              ∃ token read, c.rest = token :: (read ++ r.rest)) ∧
            r.nesting = (inParenthesis (r :: past)).length ∧
            calls (.expression .comparison) (underWay (r :: past)) ≤ b.maxNesting + 1 := by
  refine ⟨exists_trace_run b tokens, next?_run b _, fun r past h => ?_⟩
  obtain ⟨hnesting, hle, hnests⟩ := h.nested
  refine ⟨h.length_add_work_le, h.rest_suffix,
    fun c hc part goals hg => h.exists_rest_of_returned hc hg, ?_, ?_⟩
  · rw [hnesting, h.length_inParenthesis, h.calls_tail .value]
  · have hcount := hnests.count_le
    rw [calls_underWay, h.calls_tail (.expression .comparison)]
    omega

/-- Behind the `1` of `( 1 )`, with one parenthesis allowed: it is open, two expressions are under
    way, and the value that returns has taken a token. -/
theorem recursion_bounded_paren :
    ∃ (c r : Recognition) (past : List Recognition),
      IsTrace { maxNesting := 1 } [.leftParen, .number 1, .rightParen] (r :: past) ∧
        past.length + r.work ≤ 40 ∧ c ∈ returned (r :: past) ∧ c.goals.head? = some .value ∧
          (∃ token read, c.rest = token :: (read ++ r.rest)) ∧ r.nesting = 1 ∧
            calls (.expression .comparison) (underWay (r :: past)) = 2 := by
  let tokens : List Token := [.leftParen, .number 1, .rightParen]
  let behind : List Goal := [.more .product, .more .sum, .more .comparison]
  let goals : List Goal := behind ++ .close :: behind ++ [.finish]
  let c : Recognition := ⟨.value :: goals, tokens.drop 1, 1, [], []⟩
  let r : Recognition := ⟨goals, tokens.drop 2, 1, [1], [.pushNumber 1]⟩
  have h : IsTrace { maxNesting := 1 } tokens (r :: c :: trace { maxNesting := 1 } tokens 7) :=
    isTrace_trace { maxNesting := 1 } tokens 9
  obtain ⟨-, -, hbounds⟩ := recursion_bounded { maxNesting := 1 } tokens
  obtain ⟨hlength, -, hreads, hnesting, hcalls⟩ := hbounds r _ h
  have hreturned : c ∈ returned (r :: c :: trace { maxNesting := 1 } tokens 7) := by decide
  exact ⟨c, r, _, h, hlength, hreturned, rfl, hreads c hreturned none _ rfl,
    hnesting.trans (by decide), Nat.le_antisymm hcalls (by decide)⟩

end Recognition

end Arbor
