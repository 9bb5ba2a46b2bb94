import Arbor.Proofs.Grammar.Stuck
import Arbor.Proofs.Node.Walk

/-!
# A syntax error is found at the first impossible token

Tokens are *viable* if they begin a program. If the bounds are larger than the number of tokens, and
these are no program, then recognition pushes the leaves of the longest viable ones that they begin
with, and no others (`Script.exists_viable_ofTokens`).

Whether a statement is an assignment is decided on by two tokens. So there are two cases, of tokens
that *lead* into programs: those up to the `=` of an assignment (`Recognition.exists_viable_assign`),
and none but ends of statements (`Recognition.exists_viable_expression`). What comes behind them is
looked at one token after the other.
-/

namespace Arbor

variable {b : Bounds} {r : Recognition}

/-- Of the tokens that begin others, these are the longest that begin a program. They begin one that
    keeps the bounds; all longer ones begin none, whatever the bounds are. -/
structure Token.IsLongestViable (b : Bounds) (viable tokens : List Token) : Prop where
  isPrefix : viable <+: tokens
  begins : ∃ p : Program, viable <+: p.tokens ∧ p.nesting ≤ b.maxNesting ∧ p.node.Fits b.maxDepth
  longest : ∀ others, others <+: tokens → (∃ p : Program, others <+: p.tokens) → others <+: viable

namespace Recognition

theorem start_replicate_append (k : Nat) {rest : List Token}
    (h : rest.head? ≠ some .terminator) :
    start (List.replicate k .terminator ++ rest) = ⟨[.statement, .finish], rest, 0, [], []⟩ := by
  rw [start]
  congr 1
  induction k with
  | zero =>
    cases rest with
    | nil => rfl
    | cons t rest => exact List.dropWhile_cons_of_neg (by simpa using h)
  | succ k ih => rwa [List.replicate_succ, List.cons_append, List.dropWhile_cons_of_pos (by simp)]

/-- Every program is recognised under some wider bounds. -/
theorem exists_bounds (b : Bounds) (p : Program) :
    ∃ c, b ≤ c ∧ ((start p.tokens).run c).goals = [] := by
  have hfits : p.node.Fits (max b.maxDepth p.node.height) := fun n hn _ =>
    Nat.le_trans (Node.height_le_of_mem_preorder hn) (Nat.le_max_right _ _)
  exact ⟨⟨max b.maxNesting p.nesting, max b.maxDepth p.node.height⟩,
    ⟨Nat.le_max_left _ _, Nat.le_max_left _ _⟩,
    run_start_eq_nil_iff.2 ⟨p, rfl, Nat.le_max_right _ _, hfits⟩⟩

/-- From behind some tokens that lead into programs, and only from there into these, recognition
    takes in the longest viable ones. -/
theorem exists_viable_of_lead {lead : List Token} (h : Ample b r) (hleft : (r.run b).goals ≠ [])
    (hpushes : Script.pushes r.issued.reverse = Token.leaves lead)
    (hprogram : ∀ others, (run b { r with rest := others }).goals = [] →
      ∃ p : Program, p.tokens = lead ++ others ∧ p.nesting ≤ b.maxNesting ∧ p.node.Fits b.maxDepth)
    (hrun : ∀ tokens, tokens <+: r.rest → (∃ p : Program, lead ++ tokens <+: p.tokens) →
      ∃ c, b ≤ c ∧ ∃ others, (run c { r with rest := tokens ++ others }).goals = []) :
    ∃ viable, Token.IsLongestViable b viable (lead ++ r.rest) ∧
      Script.pushes (r.run b).issued.reverse = Token.leaves viable := by
  obtain ⟨viable, hviable, hleaves, ⟨others, hmeets⟩, hlongest⟩ := exists_longest h hleft
  obtain ⟨p, hp, hn, hf⟩ := hprogram _ hmeets
  refine ⟨lead ++ viable, ⟨?_, ⟨p, ⟨others, ?_⟩, hn, hf⟩, ?_⟩, ?_⟩
  · exact (List.prefix_append_right_inj lead).2 hviable
  · rw [hp, List.append_assoc]
  · intro tokens htokens hbegins
    -- Tokens that begin the input end inside the lead, or go on behind it.
    rcases List.prefix_or_prefix_of_prefix htokens (List.prefix_append lead r.rest) with hle | ⟨us, rfl⟩
    · exact hle.trans (List.prefix_append _ _)
    · rw [List.prefix_append_right_inj] at htokens ⊢
      obtain ⟨c, hc, others, hothers⟩ := hrun us htokens hbegins
      exact hlongest c hc us others htokens hothers
  · rw [hleaves, hpushes, Token.leaves_append]

/-- Behind a name and `=`, recognition takes in the longest viable tokens. -/
theorem exists_viable_assign {k : Nat} {text : String} {rest : List Token}
    (hn : rest.length < b.maxNesting) (hd : rest.length + 2 ≤ b.maxDepth) :
    let tokens := List.replicate k .terminator ++ .ident text :: .assign :: rest
    ((start tokens).run b).goals ≠ [] →
      ∃ viable, Token.IsLongestViable b viable tokens ∧
        Script.pushes ((start tokens).run b).issued.reverse = Token.leaves viable := by
  intro tokens hleft
  let lead : List Token := List.replicate k .terminator ++ [.ident text, .assign]
  have hlead (c : Bounds) (others : List Token) : (start (lead ++ others)).run c = run c
      ⟨[.expression .comparison, .reduce .assign, .finish], others, 0, [1], [.pushSymbol text]⟩ := by
    have hhead : (Token.ident text :: ([.assign] ++ others)).head? ≠ some .terminator := nofun
    rw [List.append_assoc, List.cons_append, start_replicate_append k hhead]
    exact run_cons (advance_statement_assign text)
  have htokens : tokens = lead ++ rest := by simp [tokens, lead]
  have hample : Ample b
      ⟨[.expression .comparison, .reduce .assign, .finish], rest, 0, [1], [.pushSymbol text]⟩ := by
    refine ⟨.cons (.cons (.inr ⟨rfl, rfl⟩) nofun nofun) nofun nofun, ⟨rfl, Nat.le_refl 2, trivial⟩,
      List.forall_mem_singleton.2 Nat.one_pos, ?_, ?_⟩
    · simp only [Nat.zero_add]
      omega
    · simp only [List.sum_singleton, Goal.phrases]
      omega
  rw [htokens, hlead] at hleft ⊢
  refine exists_viable_of_lead hample hleft ?_ ?_ ?_
  · rw [Token.leaves_append, Token.leaves_replicate]
    rfl
  · intro others hmeets
    rw [← hlead] at hmeets
    exact run_start_eq_nil_iff.1 hmeets
  · rintro us - ⟨p, more, hp⟩
    obtain ⟨c, hc, hgoals⟩ := exists_bounds b p
    rw [← hp, List.append_assoc, hlead] at hgoals
    exact ⟨c, hc, more, hgoals⟩

/-- In front of an expression, recognition takes in the longest viable tokens. -/
theorem exists_viable_expression {k : Nat} {rest : List Token}
    (hhead : rest.head? ≠ some .terminator) (hne : ∀ text us, rest ≠ .ident text :: .assign :: us)
    (hn : rest.length < b.maxNesting) (hd : rest.length < b.maxDepth) :
    let tokens := List.replicate k .terminator ++ rest
    ((start tokens).run b).goals ≠ [] →
      ∃ viable, Token.IsLongestViable b viable tokens ∧
        Script.pushes ((start tokens).run b).issued.reverse = Token.leaves viable := by
  intro tokens hleft
  have hlead (c : Bounds) {others : List Token} (hhead : others.head? ≠ some .terminator)
      (hne : ∀ text us, others ≠ .ident text :: .assign :: us) :
      (start (List.replicate k .terminator ++ others)).run c =
        run c ⟨[.expression .comparison, .finish], others, 0, [], []⟩ := by
    rw [start_replicate_append k hhead]
    exact run_cons (advance_statement_expression hne)
  have hample : Ample b ⟨[.expression .comparison, .finish], rest, 0, [], []⟩ := by
    refine ⟨.cons (.inr ⟨rfl, rfl⟩) nofun nofun, trivial, List.forall_mem_nil _, ?_, ?_⟩
    · simp only [Nat.zero_add]
      omega
    · simp only [List.sum_nil, Goal.phrases]
      omega
  rw [hlead b hhead hne] at hleft ⊢
  refine exists_viable_of_lead hample hleft (Token.leaves_replicate k).symm ?_ ?_
  · intro others hmeets
    obtain ⟨e, m, rfl, hn, hw⟩ := exists_expression hmeets
    exact ⟨⟨k, .expression e, m⟩, rfl, hn, (Statement.expression e).fits_node_iff.2 hw⟩
  · rintro us ⟨vs, rfl⟩ ⟨p, more, hp⟩
    cases us with
    | nil =>
      obtain ⟨others, -, hmeets⟩ := hample.exists_completion rfl (.inl rfl)
      exact ⟨b, b.le_refl, others, hmeets⟩
    | cons t us =>
      rcases assign_or_not (t :: us ++ more) with ⟨text, ws, hassign⟩ | hplain
      · -- The tokens go on differently, so only the name is common. It is an expression alone.
        obtain ⟨rfl, hus⟩ := List.cons.inj hassign
        cases us with
        | nil =>
          have hstops : Level.Stops (some .comparison) [] := Level.stops_replicate _ 0
          refine ⟨b, b.le_refl, [], ?_⟩
          refine (congrArg Recognition.goals (run_atom (.name text) hstops (Nat.zero_le _))).trans ?_
          exact congrArg Recognition.goals ((run_cons (advance_finish 0)).trans run_nil)
        | cons u us =>
          obtain ⟨rfl, -⟩ := List.cons.inj hus
          exact absurd rfl (hne text (us ++ vs))
      · obtain ⟨c, hc, hgoals⟩ := exists_bounds b p
        have hhead : (t :: us ++ more).head? ≠ some .terminator := hhead
        rw [← hp, List.append_assoc, hlead c hhead hplain] at hgoals
        exact ⟨c, hc, more, hgoals⟩

end Recognition

/-- If the bounds are larger than the number of tokens, then recognition that gets stuck has taken in
    the longest viable ones. -/
theorem Recognition.exists_viable {b : Bounds} {tokens : List Token}
    (hn : tokens.length < b.maxNesting) (hd : tokens.length < b.maxDepth)
    (hleft : ((start tokens).run b).goals ≠ []) :
    ∃ viable, Token.IsLongestViable b viable tokens ∧
      Script.pushes ((start tokens).run b).issued.reverse = Token.leaves viable := by
  obtain ⟨k, hk⟩ := exists_eq_replicate_append tokens
  have hhead : (tokens.dropWhile (· = .terminator)).head? ≠ some .terminator := by
    intro h
    simpa [h] using List.head?_dropWhile_not (· = Token.terminator) tokens
  rw [hk] at hn hd hleft ⊢
  rw [List.length_append] at hn hd
  rcases assign_or_not (tokens.dropWhile (· = .terminator)) with ⟨text, us, h⟩ | hne
  · rw [h] at hn hd hleft ⊢
    simp only [List.length_cons] at hn hd
    exact exists_viable_assign (by omega) (by omega) hleft
  · exact exists_viable_expression hhead hne (by omega) (by omega) hleft

/-- If the bounds are larger than the number of tokens, and these are no program, then their calls
    push the leaves of the longest viable tokens, make pairs, and end with a mark of failure. -/
theorem Script.exists_viable_ofTokens {b : Bounds} {tokens : List Token}
    (hn : tokens.length < b.maxNesting) (hd : tokens.length < b.maxDepth)
    (h : ¬∃ p : Program, p.tokens = tokens ∧ p.nesting ≤ b.maxNesting ∧ p.node.Fits b.maxDepth) :
    ∃ viable script, Token.IsLongestViable b viable tokens ∧
      ofTokens b tokens = script ++ [.setError] ∧ (∀ op ∈ script, op.IsMove) ∧
        pushes script = Token.leaves viable := by
  rw [← Recognition.run_start_eq_nil_iff] at h
  obtain ⟨viable, hviable, hpushes⟩ := Recognition.exists_viable hn hd h
  obtain ⟨moves, hissued, hmoves⟩ := Recognition.exists_issued_run b (Recognition.start tokens)
  have hnil : (Recognition.start tokens).issued = [] := rfl
  rw [hnil, List.append_nil] at hissued
  rw [hissued] at hpushes
  refine ⟨viable, moves.reverse, hviable, ?_, fun op hop => hmoves op (List.mem_reverse.1 hop), hpushes⟩
  rw [ofTokens, Recognition.script, hissued]
  simp [h]

end Arbor
