import Mathlib.Data.List.Infix
import Arbor.Proofs.Grammar.Demands

/-!
# Traces of recognition, and the calls in them

A *trace* is a run up to one of its states, with all the states that it went through. Traces end
where no move can be made, and there the run is at its end (`Recognition.exists_trace_run`,
`Recognition.next?_run`).

The goals are those of rules that call one another, so a run has a stack of calls. A call begins
where its goal comes first. It goes on as long as no fewer goals are left, and returns with the
move that leaves fewer: `Recognition.underWay` are the calls under way, and `Recognition.returned`
those that return. A call does not look at the goals behind its own
(`Recognition.next?_inFrontOf`), so it goes as it would alone
(`Recognition.IsTrace.run_of_mem_returned`), and has read a phrase or a statement when it returns:
the tokens of it are gone, its tree is on top, and all else is as it was
(`Recognition.exists_phrase_of_run`, `Recognition.exists_statement_of_run`).
-/

namespace Arbor

namespace Recognition

/-- The state after the next move; none where no move can be made. -/
def next? (b : Bounds) (r : Recognition) : Option Recognition :=
  match r.goals with
  | [] => none
  | goal :: goals => advance b goal { r with goals }

/-- A run up to one of its states: the states that it went through, the last one first. -/
inductive IsTrace (b : Bounds) (tokens : List Token) : List Recognition → Prop
  | init : IsTrace b tokens [start tokens]
  | step {r s : Recognition} {past : List Recognition} (h : IsTrace b tokens (r :: past))
      (hs : next? b r = some s) : IsTrace b tokens (s :: r :: past)

/-- The trace of `n` moves, or of all moves that can be made if these are fewer. -/
def trace (b : Bounds) (tokens : List Token) : Nat → List Recognition
  | 0 => [start tokens]
  | n + 1 =>
    match trace b tokens n with
    | [] => []
    | r :: past =>
      match next? b r with
      | none => r :: past
      | some s => s :: r :: past

/-- The calls under way at the end of a trace, the innermost first. Each is given by the state in
    which its goal came first, and no state since then has fewer goals. -/
def underWay : List Recognition → List Recognition
  | [] => []
  | r :: past => r :: (underWay past).filter (·.goals.length ≤ r.goals.length)

/-- The calls that return with the last move of a trace. -/
def returned : List Recognition → List Recognition
  | [] => []
  | s :: past => (underWay past).filter (s.goals.length < ·.goals.length)

variable {b : Bounds} {tokens : List Token} {c r s : Recognition} {past states : List Recognition}

/-! ### Moves and runs -/

theorem move_of_next? (h : next? b r = some s) : Move b r s := by
  obtain ⟨_ | ⟨goal, goals⟩, rest, nesting, heights, issued⟩ := r
  · cases h
  · exact move_of_advance h

theorem run_of_next? (h : next? b r = some s) : run b r = run b s := (move_of_next? h).run_eq

/-- No move can be made at the end of a run. -/
theorem next?_run (b : Bounds) (r : Recognition) : next? b (r.run b) = none := by
  cases hg : (r.run b).goals with
  | nil => rw [next?, hg]
  | cons goal goals =>
    rw [next?, hg]
    exact advance_run_eq_none hg

/-- A trace goes on to the end of the run. -/
theorem IsTrace.exists_run (h : IsTrace b tokens (r :: past)) :
    ∃ past, IsTrace b tokens (r.run b :: past) := by
  fun_induction Recognition.run b r generalizing past with
  | case1 r hg => exact ⟨past, h⟩
  | case2 r goal goals hg ha => exact ⟨past, h⟩
  | case3 r goal goals hg s ha ih =>
    have hs : next? b r = some s := by rw [next?, hg]; exact ha
    exact ih (h.step hs)

theorem exists_trace_run (b : Bounds) (tokens : List Token) :
    ∃ past, IsTrace b tokens ((start tokens).run b :: past) := IsTrace.init.exists_run

theorem isTrace_trace (b : Bounds) (tokens : List Token) (n : Nat) :
    IsTrace b tokens (trace b tokens n) := by
  induction n with
  | zero => exact .init
  | succ n ih =>
    rw [trace]
    split
    · next ht => rwa [ht] at ih
    · next ht =>
      rw [ht] at ih
      split
      · exact ih
      · next hs => exact ih.step hs

/-- Traces are told from the start on, one move after the other. -/
theorem IsTrace.induction {P : Recognition → List Recognition → Prop}
    (h : IsTrace b tokens (r :: past)) (hstart : P (start tokens) [])
    (hstep : ∀ r s past, IsTrace b tokens (r :: past) → next? b r = some s → P r past →
      P s (r :: past)) : P r past := by
  generalize hstates : r :: past = states at h
  induction h generalizing r past with
  | init =>
    cases hstates
    exact hstart
  | step h hs ih =>
    cases hstates
    exact hstep _ _ _ h hs (ih rfl)

/-- What every move keeps holds at the end of a trace if it holds at the start. -/
theorem IsTrace.invariant {P : Recognition → Prop} (h : IsTrace b tokens (r :: past))
    (hstart : P (start tokens)) (hmove : ∀ r s, Move b r s → P r → P s) : P r :=
  h.induction (P := fun r _ => P r) hstart fun r s _ _ hs hr => hmove r s (move_of_next? hs) hr

/-- All states of a trace are on the way to the end of one run. -/
theorem IsTrace.run_eq (h : IsTrace b tokens (r :: past)) : r.run b = (start tokens).run b :=
  h.invariant (P := fun r => r.run b = (start tokens).run b) rfl
    fun _ _ hmove hr => hmove.run_eq.symm.trans hr

/-- The calls issued so far begin those for the tokens. -/
theorem IsTrace.issued_prefix (h : IsTrace b tokens (r :: past)) :
    r.issued.reverse <+: Script.ofTokens b tokens := by
  obtain ⟨moves, hissued, -⟩ := exists_issued_run b r
  rw [Script.ofTokens, script, ← h.run_eq, hissued, List.reverse_append, List.append_assoc]
  exact List.prefix_append _ _

/-- The calls issued so far are moves. -/
theorem IsTrace.issued_moves (h : IsTrace b tokens (r :: past)) : ∀ op ∈ r.issued, op.IsMove := by
  refine h.invariant (P := fun r => ∀ op ∈ r.issued, op.IsMove) (List.forall_mem_nil _) ?_
  intro r s hmove hr
  rcases hmove.issued with hi | ⟨op, hop, hi⟩
  · rwa [hi]
  · rw [hi]
    exact List.forall_mem_cons.2 ⟨hop, hr⟩

/-! ### Calls -/

theorem mem_of_mem_underWay (h : c ∈ underWay states) : c ∈ states := by
  induction states with
  | nil => exact h
  | cons r past ih =>
    rcases List.mem_cons.1 h with rfl | h
    · exact List.mem_cons_self
    · exact List.mem_cons_of_mem _ (ih (List.mem_filter.1 h).1)

theorem mem_underWay_cons :
    c ∈ underWay (r :: past) ↔ c = r ∨ c ∈ underWay past ∧ c.goals.length ≤ r.goals.length := by
  rw [underWay, List.mem_cons, List.mem_filter, decide_eq_true_iff]

theorem mem_returned_cons :
    c ∈ returned (s :: past) ↔ c ∈ underWay past ∧ s.goals.length < c.goals.length := by
  rw [returned, List.mem_filter, decide_eq_true_iff]

/-- No call under way has more goals than are left. -/
theorem length_le_of_mem_underWay (h : c ∈ underWay (r :: past)) :
    c.goals.length ≤ r.goals.length := by
  rcases mem_underWay_cons.1 h with rfl | ⟨-, hle⟩
  · exact Nat.le_refl _
  · exact hle

/-- A trace can be cut off behind each of its states. -/
theorem IsTrace.exists_of_mem (h : IsTrace b tokens states) (hc : c ∈ states) :
    ∃ past, IsTrace b tokens (c :: past) := by
  induction h with
  | init =>
    obtain rfl := List.mem_singleton.1 hc
    exact ⟨[], .init⟩
  | step h hs ih =>
    rcases List.mem_cons.1 hc with rfl | hc
    · exact ⟨_, h.step hs⟩
    · exact ih hc

theorem IsTrace.exists_of_mem_returned (h : IsTrace b tokens (r :: past))
    (hc : c ∈ returned (r :: past)) : ∃ past, IsTrace b tokens (c :: past) :=
  h.exists_of_mem (List.mem_cons_of_mem r (mem_of_mem_underWay (mem_returned_cons.1 hc).1))

/-- The same state with further goals behind its own. -/
def inFrontOf (r : Recognition) (below : List Goal) : Recognition :=
  { r with goals := r.goals ++ below }

/-- A move does not look at the goals behind the first. -/
theorem next?_inFrontOf (h : r.goals ≠ []) (below : List Goal) :
    next? b (r.inFrontOf below) = (next? b r).map (·.inFrontOf below) := by
  obtain ⟨_ | ⟨goal, goals⟩, rest, nesting, heights, issued⟩ := r
  · exact absurd rfl h
  · change advance b goal ⟨goals ++ below, rest, nesting, heights, issued⟩ =
      (advance b goal ⟨goals, rest, nesting, heights, issued⟩).map (·.inFrontOf below)
    cases goal with
    | statement =>
      simp only [advance, statement]
      split <;> rfl
    | expression level => rfl
    | more level =>
      simp only [advance, more]
      split
      · rfl
      · split <;> rfl
    | value =>
      simp only [advance, value]
      split
      · rfl
      · split
        · rfl
        · split <;> rfl
    | close =>
      simp only [advance, close]
      split <;> rfl
    | reduce kind =>
      have hheight : pairHeight ⟨goals ++ below, rest, nesting, heights, issued⟩ =
          pairHeight ⟨goals, rest, nesting, heights, issued⟩ := rfl
      simp only [advance, reduce, hheight]
      split <;> rfl
    | finish =>
      simp only [advance, finish]
      split <;> rfl

/-- A move of a state with goals behind its own leaves these goals. -/
theorem exists_of_next?_inFrontOf {below : List Goal} (h : r.goals ≠ [])
    (hs : next? b (r.inFrontOf below) = some s) :
    ∃ t, next? b r = some t ∧ s = t.inFrontOf below := by
  rw [next?_inFrontOf h] at hs
  obtain ⟨t, ht, rfl⟩ := Option.map_eq_some_iff.1 hs
  exact ⟨t, ht, rfl⟩

/-- A call that is under way goes as it would alone, in front of the goals behind it. -/
theorem IsTrace.exists_inFrontOf {goal : Goal} {goals : List Goal}
    (h : IsTrace b tokens (r :: past)) (hc : c ∈ underWay (r :: past))
    (hg : c.goals = goal :: goals) :
    ∃ t : Recognition, r = t.inFrontOf goals ∧ t.goals ≠ [] ∧
      run b { c with goals := [goal] } = run b t := by
  have hbegin : ∃ t : Recognition, c = t.inFrontOf goals ∧ t.goals ≠ [] ∧
      run b { c with goals := [goal] } = run b t := by
    refine ⟨{ c with goals := [goal] }, ?_, List.cons_ne_nil _ _, rfl⟩
    obtain ⟨_, rest, nesting, heights, issued⟩ := c
    cases hg
    rfl
  refine h.induction (P := fun r past => c ∈ underWay (r :: past) → ∃ t : Recognition,
    r = t.inFrontOf goals ∧ t.goals ≠ [] ∧ run b { c with goals := [goal] } = run b t) ?_ ?_ hc
  · intro hc
    obtain rfl := List.mem_singleton.1 hc
    exact hbegin
  · intro r s past _ hs ih hc
    rcases mem_underWay_cons.1 hc with rfl | ⟨hc, hle⟩
    · exact hbegin
    · obtain ⟨t, rfl, ht, hrun⟩ := ih hc
      obtain ⟨u, hu, rfl⟩ := exists_of_next?_inFrontOf ht hs
      refine ⟨u, rfl, ?_, hrun.trans (run_of_next? hu)⟩
      -- The call has not returned, so it still has a goal of its own.
      rintro hnil
      rw [hg, inFrontOf, hnil, List.nil_append, List.length_cons] at hle
      exact Nat.not_succ_le_self _ hle

/-- A call that returns meets its goal as it would alone, and leaves the goals behind it. -/
theorem IsTrace.run_of_mem_returned {goal : Goal} {goals : List Goal}
    (h : IsTrace b tokens (s :: past)) (hc : c ∈ returned (s :: past))
    (hg : c.goals = goal :: goals) :
    s.goals = goals ∧ run b { c with goals := [goal] } = { s with goals := [] } := by
  obtain ⟨hc, hlt⟩ := mem_returned_cons.1 hc
  cases h with
  | init => cases hc
  | step h hs =>
    obtain ⟨t, rfl, ht, hrun⟩ := h.exists_inFrontOf hc hg
    obtain ⟨u, hu, rfl⟩ := exists_of_next?_inFrontOf ht hs
    have hnil : u.goals = [] := by
      rw [hg, inFrontOf, List.length_append, List.length_cons] at hlt
      exact List.eq_nil_of_length_eq_zero (by omega)
    refine ⟨by rw [inFrontOf, hnil, List.nil_append], ?_⟩
    obtain ⟨_, rest, nesting, heights, issued⟩ := u
    cases hnil
    rw [hrun, run_of_next? hu, run_nil]
    rfl

/-! ### What a call reads -/

/-- Alone, a goal of phrases is met by a phrase. -/
theorem exists_phrase_of_run {part : Option Level} (hn : c.nesting ≤ b.maxNesting)
    (hrun : run b { c with goals := [Level.goal part] } = { s with goals := [] }) :
    ∃ p : Phrase part, c.rest = p.tokens ++ s.rest ∧ s.nesting = c.nesting ∧
      s.heights = p.height :: c.heights ∧ s.issued = p.script.reverse ++ c.issued := by
  obtain ⟨p, ts, hrest, hstops, hnest, hw, -⟩ :=
    readsPhrases b _ part [] c.rest c.nesting c.heights c.issued (Nat.lt_succ_self _) hn
      (congrArg Recognition.goals hrun)
  have hphrase := p.run hstops hnest hw [] c.heights c.issued
  rw [← hrest, run_nil] at hphrase
  obtain ⟨-, hs, hnesting, hheights, hissued⟩ := Recognition.mk.inj (hrun.symm.trans hphrase)
  exact ⟨p, by rw [hrest, hs], hnesting, hheights, hissued⟩

/-- Alone, the goal of a statement is met by a statement. -/
theorem exists_statement_of_run (hn : c.nesting ≤ b.maxNesting)
    (hrun : run b { c with goals := [.statement] } = { s with goals := [] }) :
    ∃ t : Statement, c.rest = t.tokens ++ s.rest ∧ s.nesting = c.nesting ∧
      s.heights = t.height :: c.heights ∧ s.issued = t.script.reverse ++ c.issued := by
  obtain ⟨_, rest, nesting, heights, issued⟩ := c
  rcases assign_or_not rest with ⟨text, us, rfl⟩ | hne
  · rw [run_cons (advance_statement_assign text)] at hrun
    obtain ⟨e, ts, rfl, hstops, hnest, hw, hreduce⟩ :=
      readsPhrases b _ (some .comparison) _ _ _ _ _ (Nat.lt_succ_self _) hn
        (congrArg Recognition.goals hrun)
    obtain ⟨_, hr, -⟩ := exists_advance hreduce
    have hassign := e.run hstops hnest hw [.reduce .assign] (1 :: heights)
      (.pushSymbol text :: issued)
    rw [run_cons (advance_reduce (le_of_advance_reduce hr)), run_nil] at hassign
    obtain ⟨-, hs, hnesting, hheights, hissued⟩ := Recognition.mk.inj (hrun.symm.trans hassign)
    refine ⟨.assign text e, by rw [hs]; rfl, hnesting, hheights, ?_⟩
    rw [hissued]
    simp [Statement.script]
  · rw [run_cons (advance_statement_expression hne)] at hrun
    have hphrase : run b ⟨[Level.goal (some .comparison)], rest, nesting, heights, issued⟩ =
        { s with goals := [] } := hrun
    obtain ⟨e, hrest, hnesting, hheights, hissued⟩ :=
      exists_phrase_of_run (c := ⟨[], rest, nesting, heights, issued⟩) hn hphrase
    exact ⟨.expression e, hrest, hnesting, hheights, hissued⟩

end Recognition

end Arbor
