import Arbor.Proofs.Grammar.Moves
import Arbor.Proofs.Grammar.Tree

/-!
# Recognition is exact

Recognition meets all its goals exactly for the programs of the grammar that keep the
bounds (`Recognition.run_start_eq_nil_iff`), and has then issued the calls that build
the tree of the program (`Program.run_start`).

That it recognises every program goes by induction on the derivation: the goal of a
phrase is met by the tokens of the phrase, with whatever tokens follow that stop it
(`Phrase.run`). That it recognises nothing else goes by the work that is left: from a
run that meets all goals, a phrase is read off for every goal
(`Recognition.readsPhrases`).
-/

namespace Arbor

/-! ### The calls of a derivation -/

mutual

/-- The calls that build the tree of a phrase. -/
def Phrase.script {part : Option Level} : Phrase part → Script
  | .atom a => [a.op]
  | .paren inner => inner.script
  | .chain first more => first.script ++ more.script

/-- The calls that build the tree of a tail over what stands to the left. -/
def Tail.script {level : Level} : Tail level → Script
  | .nil => []
  | .cons operator operand more => operand.script ++ .reduce operator.kind 2 :: more.script

end

/-- The calls that build the tree of a statement. -/
def Statement.script : Statement → Script
  | expression e => e.script
  | assign text e => .pushSymbol text :: (e.script ++ [.reduce .assign 2])

/-! ### Every phrase is recognised -/

section

variable {b : Bounds}

mutual

/-- The goal of a phrase is met by its tokens, if what comes behind stops it. -/
theorem Phrase.run {part : Option Level} :
    ∀ (p : Phrase part) {rest : List Token} {nesting : Nat}, Level.Stops part rest →
      nesting + p.nesting ≤ b.maxNesting → p.Within b.maxDepth →
        ∀ (goals : List Goal) (heights : List Nat) (issued : Script),
          Recognition.run b ⟨Level.goal part :: goals, p.tokens ++ rest, nesting, heights, issued⟩ =
            Recognition.run b
              ⟨goals, rest, nesting, p.height :: heights, p.script.reverse ++ issued⟩
  | .atom a, _, _, _, _, _, _, _, _ => Recognition.run_cons (Recognition.advance_atom a)
  | .paren inner, rest, nesting, _, hn, hw, goals, heights, issued => by
    rw [Phrase.nesting] at hn
    have hlt : nesting < b.maxNesting := by omega
    have hin : nesting + 1 + inner.nesting ≤ b.maxNesting := by omega
    have htokens : inner.paren.tokens ++ rest =
        .leftParen :: (inner.tokens ++ (.rightParen :: rest)) := by
      simp [Phrase.tokens]
    -- The parenthesis that closes stops the expression inside.
    rw [htokens, Level.goal, Recognition.run_cons (Recognition.advance_paren hlt)]
    refine (inner.run (Level.stops_rightParen _ rest) hin hw _ _ _).trans ?_
    exact Recognition.run_cons rfl
  | .chain first more, rest, nesting, hs, hn, hw, goals, heights, issued => by
    rw [Phrase.nesting] at hn
    have hfirst : nesting + first.nesting ≤ b.maxNesting := by omega
    have hmore : nesting + more.nesting ≤ b.maxNesting := by omega
    rw [Phrase.tokens, List.append_assoc, Level.goal,
      Recognition.run_cons (Recognition.advance_expression _),
      first.run (more.stops hs) hfirst hw.1, more.run hs hmore hw.2, Phrase.script,
      List.reverse_append, List.append_assoc, Phrase.height]

/-- What a tail adds to a tree is found by its tokens, if what comes behind stops it. -/
theorem Tail.run {level : Level} :
    ∀ (m : Tail level) {rest : List Token} {nesting left : Nat}, Level.Stops (some level) rest →
      nesting + m.nesting ≤ b.maxNesting → m.Within b.maxDepth left →
        ∀ (goals : List Goal) (heights : List Nat) (issued : Script),
          Recognition.run b ⟨.more level :: goals, m.tokens ++ rest, nesting, left :: heights, issued⟩ =
            Recognition.run b
              ⟨goals, rest, nesting, m.height left :: heights, m.script.reverse ++ issued⟩
  | .nil, _, _, _, hs, _, _, _, _, _ =>
    Recognition.run_cons (Recognition.advance_more_of_stops (Level.stops_some_iff.1 hs).1)
  | .cons operator operand more, rest, nesting, left, hs, hn, hw, goals, heights, issued => by
    obtain ⟨hoperand, hpair, hmore⟩ := hw
    rw [Tail.nesting] at hn
    have hn₁ : nesting + operand.nesting ≤ b.maxNesting := by omega
    have hn₂ : nesting + more.nesting ≤ b.maxNesting := by omega
    have htokens : (Tail.cons operator operand more).tokens ++ rest =
        operator.token :: (operand.tokens ++ (more.tokens ++ rest)) := by
      simp [Tail.tokens]
    -- The pair takes the place of the left operand, and the rest of the tail goes on from it.
    rw [htokens, Recognition.run_cons (Recognition.advance_operator operator),
      operand.run (more.stops hs) hn₁ hoperand,
      Recognition.run_cons (Recognition.advance_reduce hpair), more.run hs hn₂ hmore]
    simp [Tail.height, Tail.script]

end

end

/-! ### Only phrases are recognised -/

theorem Goal.weight_more (level : Level) : (more level).weight = 1 := rfl

theorem Goal.weight_reduce (kind : Kind) : (reduce kind).weight = 1 := rfl

/-- An expression has more weight than its first operand and what comes behind it. -/
theorem Level.weight_tighter (level : Level) :
    0 < (goal level.tighter).weight ∧
      (goal level.tighter).weight + 1 < (goal (some level)).weight ∧
        (goal (some level)).weight ≤ 7 := by
  cases level <;> decide

namespace Recognition

variable {b : Bounds} {n : Nat}

/-- Some phrase begins the tokens, is stopped by what comes behind it, and keeps the bounds
    inside `nesting` parentheses. -/
def FindsPhrase (b : Bounds) (part : Option Level) (nesting : Nat) (rest : List Token) : Prop :=
  ∃ (p : Phrase part) (ts : List Token), rest = p.tokens ++ ts ∧ Level.Stops part ts ∧
    nesting + p.nesting ≤ b.maxNesting ∧ p.Within b.maxDepth

/-- From a run with less than `n` work to do that meets all goals, a phrase can be read
    off for its first goal. The run goes on behind the phrase. -/
def ReadsPhrases (b : Bounds) (n : Nat) : Prop :=
  ∀ (part : Option Level) (goals : List Goal) (rest : List Token) (nesting : Nat)
    (heights : List Nat) (issued : Script),
    let r : Recognition := ⟨Level.goal part :: goals, rest, nesting, heights, issued⟩
    r.work < n → nesting ≤ b.maxNesting → (r.run b).goals = [] →
      ∃ (p : Phrase part) (ts : List Token), rest = p.tokens ++ ts ∧ Level.Stops part ts ∧
        nesting + p.nesting ≤ b.maxNesting ∧ p.Within b.maxDepth ∧
          (run b ⟨goals, ts, nesting, p.height :: heights, p.script.reverse ++ issued⟩).goals = []

/-- The same for a tail behind an operand of height `left`. -/
def ReadsTails (b : Bounds) (n : Nat) : Prop :=
  ∀ (level : Level) (goals : List Goal) (rest : List Token) (nesting left : Nat)
    (heights : List Nat) (issued : Script),
    let r : Recognition := ⟨.more level :: goals, rest, nesting, left :: heights, issued⟩
    r.work < n → nesting ≤ b.maxNesting → Level.Stops level.tighter rest → (r.run b).goals = [] →
      ∃ (m : Tail level) (ts : List Token), rest = m.tokens ++ ts ∧ Level.Stops (some level) ts ∧
        nesting + m.nesting ≤ b.maxNesting ∧ m.Within b.maxDepth left

section

variable {goals : List Goal} {rest : List Token} {nesting : Nat} {heights : List Nat}
  {issued : Script}

/-- A value is an atom, or what stands in the parenthesis that it begins with. -/
theorem findsPhrase_none (hp : ReadsPhrases b n) (hn : nesting ≤ b.maxNesting)
    (hwork : work ⟨.value :: goals, rest, nesting, heights, issued⟩ < n + 1)
    (h : (run b ⟨.value :: goals, rest, nesting, heights, issued⟩).goals = []) :
    FindsPhrase b none nesting rest := by
  obtain ⟨_, hv, -⟩ := exists_advance h
  rcases exists_of_advance_value hv with ⟨a, ts, rfl⟩ | ⟨⟨ts, rfl⟩, hlt⟩
  · exact ⟨.atom a, ts, rfl, Level.stops_none ts, hn, trivial⟩
  · rw [run_cons (advance_paren hlt)] at h
    have hless : work ⟨Level.goal (some .comparison) :: .close :: goals, ts, nesting + 1,
        heights, issued⟩ < n := by
      simp only [work, Goal.weights, Goal.weight, Level.goal, List.length_cons] at hwork ⊢
      omega
    obtain ⟨inner, us, rfl, -, hin, hw, hclose⟩ := hp _ _ _ _ _ _ hless hlt h
    obtain ⟨_, hc, -⟩ := exists_advance hclose
    obtain ⟨vs, rfl⟩ := exists_of_advance_close hc
    refine ⟨.paren inner, vs, ?_, Level.stops_none vs, ?_, hw⟩
    · simp [Phrase.tokens]
    · rw [Phrase.nesting]
      omega

/-- An expression is its first operand, and the tail behind it. -/
theorem findsPhrase_some (hp : ReadsPhrases b n) (ht : ReadsTails b n) {level : Level}
    (hn : nesting ≤ b.maxNesting)
    (hwork : work ⟨Level.goal (some level) :: goals, rest, nesting, heights, issued⟩ < n + 1)
    (h : (run b ⟨.expression level :: goals, rest, nesting, heights, issued⟩).goals = []) :
    FindsPhrase b (some level) nesting rest := by
  obtain ⟨-, hweight, -⟩ := level.weight_tighter
  rw [run_cons (advance_expression level)] at h
  have hless : work ⟨Level.goal level.tighter :: .more level :: goals, rest, nesting, heights,
      issued⟩ < n := by
    simp only [work, Goal.weights, Goal.weight_more] at hwork ⊢
    omega
  obtain ⟨first, us, rfl, hs, hfirst, hwfirst, hmore⟩ := hp _ _ _ _ _ _ hless hn h
  have hless' : work ⟨.more level :: goals, us, nesting, first.height :: heights,
      first.script.reverse ++ issued⟩ < n := by
    simp only [work, Goal.weights, List.length_append] at hless ⊢
    omega
  -- What stops the first operand is all that a tail needs to know of the tokens behind it.
  obtain ⟨more, vs, rfl, hs', hmore, hwmore⟩ := ht _ _ _ _ _ _ _ hless' hn hs hmore
  refine ⟨.chain first more, vs, ?_, hs', ?_, hwfirst, hwmore⟩
  · rw [Phrase.tokens, List.append_assoc]
  · rw [Phrase.nesting]
    omega

end

theorem ReadsPhrases.succ (hp : ReadsPhrases b n) (ht : ReadsTails b n) :
    ReadsPhrases b (n + 1) := by
  intro part goals rest nesting heights issued r hwork hn h
  have hfinds : FindsPhrase b part nesting rest := by
    cases part with
    | none => exact findsPhrase_none hp hn hwork h
    | some level => exact findsPhrase_some hp ht hn hwork h
  -- `Phrase.run` tells how the run goes on.
  obtain ⟨p, ts, rfl, hs, hnest, hw⟩ := hfinds
  rw [p.run hs hnest hw] at h
  exact ⟨p, ts, rfl, hs, hnest, hw, h⟩

theorem ReadsTails.succ (hp : ReadsPhrases b n) (ht : ReadsTails b n) :
    ReadsTails b (n + 1) := by
  intro level goals rest nesting left heights issued r hwork hn hs h
  by_cases hop : ∀ token ∈ rest.head?, level.operator? token = none
  · exact ⟨.nil, rest, rfl, Level.stops_some_iff.2 ⟨hop, hs⟩, hn, trivial⟩
  · obtain ⟨operator, ts, rfl⟩ := Level.exists_operator hop
    obtain ⟨hpos, hweight, hle⟩ := level.weight_tighter
    rw [run_cons (advance_operator operator)] at h
    have hless : work ⟨Level.goal level.tighter :: .reduce operator.kind :: .more level :: goals, ts,
        nesting, left :: heights, issued⟩ < n := by
      simp only [r, work, Goal.weights, Goal.weight_more, Goal.weight_reduce, List.length_cons]
        at hwork ⊢
      omega
    obtain ⟨operand, us, rfl, hs', hoperand, hw, hreduce⟩ := hp _ _ _ _ _ _ hless hn h
    -- The run goes on behind the operand, so the pair is not too tall.
    obtain ⟨_, hr, -⟩ := exists_advance hreduce
    have hpair := le_of_advance_reduce hr
    rw [run_cons (advance_reduce hpair)] at hreduce
    have hless' : work ⟨.more level :: goals, us, nesting, (1 + max left operand.height) :: heights,
        .reduce operator.kind 2 :: (operand.script.reverse ++ issued)⟩ < n := by
      simp only [work, Goal.weights, List.length_append] at hless ⊢
      omega
    obtain ⟨more, vs, rfl, hstop, hmore, hwmore⟩ := ht _ _ _ _ _ _ _ hless' hn hs' hreduce
    refine ⟨.cons operator operand more, vs, ?_, hstop, ?_, hw, hpair, hwmore⟩
    · simp [Tail.tokens]
    · rw [Tail.nesting]
      omega

/-- Phrases can be read off from all runs that meet all goals. -/
theorem readsPhrases (b : Bounds) (n : Nat) : ReadsPhrases b n := by
  have h : ReadsPhrases b n ∧ ReadsTails b n := by
    induction n with
    | zero => exact ⟨nofun, nofun⟩
    | succ n ih => exact ⟨ih.1.succ ih.2, ReadsTails.succ ih.1 ih.2⟩
  exact h.1

/-! ### Statements and programs -/

variable {goals : List Goal} {rest : List Token} {nesting : Nat} {heights : List Nat}
  {issued : Script} {s : Recognition}

/-- The ends of statements before the first other token. -/
theorem exists_eq_replicate_append (tokens : List Token) :
    ∃ k, tokens = List.replicate k .terminator ++ tokens.dropWhile (· = .terminator) := by
  induction tokens with
  | nil => exact ⟨0, rfl⟩
  | cons t tokens ih =>
    by_cases ht : t = .terminator
    · obtain ⟨k, hk⟩ := ih
      refine ⟨k + 1, ?_⟩
      rw [List.dropWhile_cons_of_pos (by simp [ht]), List.replicate_succ, List.cons_append, ← hk, ht]
    · exact ⟨0, by simp [ht]⟩

end Recognition

/-- The goals of a statement and of the ends behind it are met by their tokens. -/
theorem Statement.run {b : Bounds} (s : Statement) (m : Nat) (hn : s.nesting ≤ b.maxNesting)
    (hw : s.Within b.maxDepth) :
    Recognition.run b
        ⟨[.statement, .finish], s.tokens ++ List.replicate m .terminator, 0, [], []⟩ =
      ⟨[], [], 0, [s.height], s.script.reverse⟩ := by
  have hs := Level.stops_replicate (some .comparison) m
  rw [← Nat.zero_add s.nesting] at hn
  cases s with
  | expression e =>
    have hne := e.tokens_append_ne m
    refine (Recognition.run_cons (Recognition.advance_statement_expression hne)).trans ?_
    refine (e.run hs hn hw _ _ _).trans ?_
    rw [Recognition.run_cons (Recognition.advance_finish m), Recognition.run_nil, List.append_nil]
    rfl
  | assign text e =>
    refine (Recognition.run_cons (Recognition.advance_statement_assign text)).trans ?_
    refine (e.run hs hn hw.1 _ _ _).trans ?_
    rw [Recognition.run_cons (Recognition.advance_reduce hw.2),
      Recognition.run_cons (Recognition.advance_finish m), Recognition.run_nil]
    simp [Statement.height, Statement.script]

/-- Every program is recognised that keeps the bounds. -/
theorem Program.run_start {b : Bounds} (p : Program) (hn : p.nesting ≤ b.maxNesting)
    (hf : p.node.Fits b.maxDepth) :
    (Recognition.start p.tokens).run b =
      ⟨[], [], 0, [p.statement.height], p.statement.script.reverse⟩ := by
  rw [Recognition.start, p.dropWhile_tokens]
  exact p.statement.run p.after hn (p.statement.fits_node_iff.1 hf)

namespace Recognition

variable {b : Bounds}

/-- An expression can be read off from a run that finds one and meets all goals. -/
theorem exists_expression {rest : List Token}
    (h : (run b ⟨[.expression .comparison, .finish], rest, 0, [], []⟩).goals = []) :
    ∃ (e : Expression) (m : Nat), rest = e.tokens ++ List.replicate m .terminator ∧
      e.nesting ≤ b.maxNesting ∧ e.Within b.maxDepth := by
  obtain ⟨e, ts, rfl, -, hn, hw, hfinish⟩ :=
    readsPhrases b _ (some .comparison) _ _ _ _ _ (Nat.lt_succ_self _) (Nat.zero_le _) h
  obtain ⟨_, hf, -⟩ := exists_advance hfinish
  obtain ⟨m, rfl⟩ := exists_of_advance_finish hf
  rw [Nat.zero_add] at hn
  exact ⟨e, m, rfl, hn, hw⟩

/-- A statement can be read off from a run that meets all goals. -/
theorem exists_statement {rest : List Token}
    (h : (run b ⟨[.statement, .finish], rest, 0, [], []⟩).goals = []) :
    ∃ (s : Statement) (m : Nat), rest = s.tokens ++ List.replicate m .terminator ∧
      s.nesting ≤ b.maxNesting ∧ s.Within b.maxDepth := by
  rcases assign_or_not rest with ⟨text, us, rfl⟩ | hne
  · rw [run_cons (advance_statement_assign text)] at h
    obtain ⟨e, ts, rfl, -, hn, hw, hreduce⟩ :=
      readsPhrases b _ (some .comparison) _ _ _ _ _ (Nat.lt_succ_self _) (Nat.zero_le _) h
    obtain ⟨_, hr, -⟩ := exists_advance hreduce
    have hpair := le_of_advance_reduce hr
    rw [run_cons (advance_reduce hpair)] at hreduce
    obtain ⟨_, hf, -⟩ := exists_advance hreduce
    obtain ⟨m, rfl⟩ := exists_of_advance_finish hf
    rw [Nat.zero_add] at hn
    exact ⟨.assign text e, m, rfl, hn, hw, hpair⟩
  · rw [run_cons (advance_statement_expression hne)] at h
    obtain ⟨e, m, rfl, hn, hw⟩ := exists_expression h
    exact ⟨.expression e, m, rfl, hn, hw⟩

/-- Recognition meets all its goals exactly for the programs that keep the bounds. -/
theorem run_start_eq_nil_iff {tokens : List Token} :
    ((start tokens).run b).goals = [] ↔
      ∃ p : Program, p.tokens = tokens ∧ p.nesting ≤ b.maxNesting ∧ p.node.Fits b.maxDepth := by
  constructor
  · intro h
    obtain ⟨s, m, hrest, hn, hw⟩ := exists_statement h
    obtain ⟨k, hk⟩ := exists_eq_replicate_append tokens
    refine ⟨⟨k, s, m⟩, ?_, hn, s.fits_node_iff.2 hw⟩
    rw [hrest] at hk
    exact hk.symm
  · rintro ⟨p, rfl, hn, hf⟩
    rw [p.run_start hn hf]

end Recognition

end Arbor
