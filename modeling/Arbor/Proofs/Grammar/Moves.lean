import Arbor.Grammar.Recognition
import Arbor.Proofs.Grammar.Derivation

/-!
# Moves of recognition

What a goal does depends on the tokens that come next, and this is said here once: goal by goal
for a run that goes on (`Recognition.run_cons`), and the other way round for a move that was made.
There are ten kinds of move (`Recognition.Move`), and no other (`Recognition.move_of_advance`). So
what all of them keep holds at the end of a run if it held at the start
(`Recognition.run_induction`).
-/

namespace Arbor

/-- The call for an atom. -/
def Atom.op : Atom → BuildOp
  | number value => .pushNumber (Int64.ofNat value)
  | boolean value => .pushBoolean value
  | nil => .pushNil
  | name text => .pushSymbol text

/-- The goal that phrases meet. -/
def Level.goal : Option Level → Goal
  | none => .value
  | some level => .expression level

theorem Level.goal_tighter (level : Level) : goal level.tighter = level.operand := by
  cases level <;> rfl

theorem Level.exists_operator {level : Level} {rest : List Token}
    (h : ¬∀ token ∈ rest.head?, level.operator? token = none) :
    ∃ (operator : Operator level) (ts : List Token), rest = operator.token :: ts := by
  cases rest with
  | nil => exact absurd nofun h
  | cons token ts =>
    cases ho : level.operator? token with
    | none => exact absurd (fun t ht => Option.some.inj ht ▸ ho) h
    | some kind =>
      obtain ⟨operator, rfl, -⟩ := Operator.exists_of_operator? ho
      exact ⟨operator, ts, rfl⟩

namespace Recognition

/-- The moves there are: how a first goal is met, or replaced by the goals of its parts. -/
inductive Move (b : Bounds) : Recognition → Recognition → Prop
  | assign {goals rest nesting heights issued} (text : String) :
      Move b ⟨.statement :: goals, .ident text :: .assign :: rest, nesting, heights, issued⟩
        ⟨.expression .comparison :: .reduce .assign :: goals, rest, nesting, 1 :: heights,
          .pushSymbol text :: issued⟩
  | plain {goals rest nesting heights issued} (h : ∀ text us, rest ≠ .ident text :: .assign :: us) :
      Move b ⟨.statement :: goals, rest, nesting, heights, issued⟩
        ⟨.expression .comparison :: goals, rest, nesting, heights, issued⟩
  | descend {goals rest nesting heights issued} (level : Level) :
      Move b ⟨.expression level :: goals, rest, nesting, heights, issued⟩
        ⟨Level.goal level.tighter :: .more level :: goals, rest, nesting, heights, issued⟩
  | operator {goals rest nesting heights issued} {level : Level} (operator : Operator level) :
      Move b ⟨.more level :: goals, operator.token :: rest, nesting, heights, issued⟩
        ⟨Level.goal level.tighter :: .reduce operator.kind :: .more level :: goals, rest, nesting,
          heights, issued⟩
  | stop {goals rest nesting heights issued} {level : Level}
      (h : ∀ token ∈ rest.head?, level.operator? token = none) :
      Move b ⟨.more level :: goals, rest, nesting, heights, issued⟩
        ⟨goals, rest, nesting, heights, issued⟩
  | atom {goals rest nesting heights issued} (a : Atom) :
      Move b ⟨.value :: goals, a.token :: rest, nesting, heights, issued⟩
        ⟨goals, rest, nesting, 1 :: heights, a.op :: issued⟩
  | paren {goals rest nesting heights issued} (h : nesting < b.maxNesting) :
      Move b ⟨.value :: goals, .leftParen :: rest, nesting, heights, issued⟩
        ⟨.expression .comparison :: .close :: goals, rest, nesting + 1, heights, issued⟩
  | close {goals rest nesting heights issued} :
      Move b ⟨.close :: goals, .rightParen :: rest, nesting, heights, issued⟩
        ⟨goals, rest, nesting - 1, heights, issued⟩
  | reduce {goals rest nesting heights issued} (kind : Kind)
      (h : 1 + (heights.take 2).foldr max 0 ≤ b.maxDepth) :
      Move b ⟨.reduce kind :: goals, rest, nesting, heights, issued⟩
        ⟨goals, rest, nesting, (1 + (heights.take 2).foldr max 0) :: heights.drop 2,
          .reduce kind 2 :: issued⟩
  | finish {goals nesting heights issued} (m : Nat) :
      Move b ⟨.finish :: goals, List.replicate m .terminator, nesting, heights, issued⟩
        ⟨goals, [], nesting, heights, issued⟩

variable {b : Bounds} {goal : Goal} {goals : List Goal} {rest : List Token} {nesting : Nat}
  {heights : List Nat} {issued : Script} {s : Recognition}

theorem run_nil : run b ⟨[], rest, nesting, heights, issued⟩ = ⟨[], rest, nesting, heights, issued⟩ := by
  rw [run]

/-- The first goal decides on the move. -/
theorem run_eq (b : Bounds) (goal : Goal) (r : Recognition) :
    run b { r with goals := goal :: r.goals } =
      match advance b goal r with
      | none => { r with goals := goal :: r.goals }
      | some s => run b s := by
  rw [run]
  split
  · next h => cases h
  · next h =>
    cases h
    split
    · next ha => rw [ha]
    · next ha => rw [ha]

/-- A move that can be made is made. -/
theorem run_cons (h : advance b goal ⟨goals, rest, nesting, heights, issued⟩ = some s) :
    run b ⟨goal :: goals, rest, nesting, heights, issued⟩ = run b s := by
  rw [run_eq b goal ⟨goals, rest, nesting, heights, issued⟩, h]

/-- A run that meets all goals makes the move for the first one. -/
theorem exists_advance
    (h : (run b ⟨goal :: goals, rest, nesting, heights, issued⟩).goals = []) :
    ∃ s, advance b goal ⟨goals, rest, nesting, heights, issued⟩ = some s ∧
      (run b s).goals = [] := by
  rw [run_eq b goal ⟨goals, rest, nesting, heights, issued⟩] at h
  cases ha : advance b goal ⟨goals, rest, nesting, heights, issued⟩ with
  | none => rw [ha] at h; cases h
  | some s => exact ⟨s, rfl, by rwa [ha] at h⟩

/-! ### Moves, goal by goal -/

theorem advance_atom (a : Atom) :
    advance b .value ⟨goals, a.token :: rest, nesting, heights, issued⟩ =
      some ⟨goals, rest, nesting, 1 :: heights, a.op :: issued⟩ := by
  cases a <;> rfl

theorem advance_paren (hn : nesting < b.maxNesting) :
    advance b .value ⟨goals, .leftParen :: rest, nesting, heights, issued⟩ =
      some ⟨.expression .comparison :: .close :: goals, rest, nesting + 1, heights, issued⟩ := by
  simp [advance, value, Token.leaf?, hn]

/-- A value begins with an atom, or with a parenthesis if those open leave room for it. -/
theorem exists_of_advance_value
    (h : advance b .value ⟨goals, rest, nesting, heights, issued⟩ = some s) :
    (∃ (a : Atom) (ts : List Token), rest = a.token :: ts) ∨
      (∃ ts, rest = .leftParen :: ts) ∧ nesting < b.maxNesting := by
  cases rest with
  | nil => cases h
  | cons token ts =>
    cases token with
    | number v => exact .inl ⟨.number v, ts, rfl⟩
    | boolean v => exact .inl ⟨.boolean v, ts, rfl⟩
    | nil => exact .inl ⟨.nil, ts, rfl⟩
    | ident text => exact .inl ⟨.name text, ts, rfl⟩
    | leftParen =>
      by_cases hn : nesting < b.maxNesting
      · exact .inr ⟨⟨ts, rfl⟩, hn⟩
      · simp [advance, value, Token.leaf?, hn] at h
    | _ => simp [advance, value, Token.leaf?] at h

theorem advance_expression (level : Level) :
    advance b (.expression level) ⟨goals, rest, nesting, heights, issued⟩ =
      some ⟨Level.goal level.tighter :: .more level :: goals, rest, nesting, heights, issued⟩ := by
  cases level <;> rfl

theorem advance_operator {level : Level} (operator : Operator level) :
    advance b (.more level) ⟨goals, operator.token :: rest, nesting, heights, issued⟩ =
      some ⟨Level.goal level.tighter :: .reduce operator.kind :: .more level :: goals, rest, nesting,
        heights, issued⟩ := by
  simp [advance, more, operator.operator?_token, Level.goal_tighter]

theorem advance_more_of_stops {level : Level}
    (h : ∀ token ∈ rest.head?, level.operator? token = none) :
    advance b (.more level) ⟨goals, rest, nesting, heights, issued⟩ =
      some ⟨goals, rest, nesting, heights, issued⟩ := by
  cases rest with
  | nil => rfl
  | cons token rest => simp [advance, more, h token rfl]

theorem advance_reduce {kind : Kind} {left right : Nat} (hb : 1 + max left right ≤ b.maxDepth) :
    advance b (.reduce kind) ⟨goals, rest, nesting, right :: left :: heights, issued⟩ =
      some ⟨goals, rest, nesting, (1 + max left right) :: heights, .reduce kind 2 :: issued⟩ := by
  simp [advance, reduce, pairHeight, Nat.max_comm right left, hb]

theorem le_of_advance_reduce {kind : Kind} {left right : Nat}
    (h : advance b (.reduce kind) ⟨goals, rest, nesting, right :: left :: heights, issued⟩ = some s) :
    1 + max left right ≤ b.maxDepth := by
  by_cases hb : 1 + max left right ≤ b.maxDepth
  · exact hb
  · simp [advance, reduce, pairHeight, Nat.max_comm right left, hb] at h

theorem exists_of_advance_close
    (h : advance b .close ⟨goals, rest, nesting, heights, issued⟩ = some s) :
    ∃ ts, rest = .rightParen :: ts := by
  simp only [advance, close] at h
  split at h
  · exact ⟨_, rfl⟩
  · cases h

/-- A statement begins with a name and `=`, or it does not. -/
theorem assign_or_not (rest : List Token) :
    (∃ text us, rest = .ident text :: .assign :: us) ∨
      ∀ text us, rest ≠ .ident text :: .assign :: us := by
  by_cases h : ∃ text us, rest = .ident text :: .assign :: us
  · exact .inl h
  · exact .inr fun text us hr => h ⟨text, us, hr⟩

theorem advance_statement_assign (text : String) :
    advance b .statement ⟨goals, .ident text :: .assign :: rest, nesting, heights, issued⟩ =
      some ⟨.expression .comparison :: .reduce .assign :: goals, rest, nesting, 1 :: heights,
        .pushSymbol text :: issued⟩ := rfl

theorem advance_statement_expression (h : ∀ text us, rest ≠ .ident text :: .assign :: us) :
    advance b .statement ⟨goals, rest, nesting, heights, issued⟩ =
      some ⟨.expression .comparison :: goals, rest, nesting, heights, issued⟩ := by
  simp only [advance, statement]

theorem advance_finish (m : Nat) :
    advance b .finish ⟨goals, List.replicate m .terminator, nesting, heights, issued⟩ =
      some ⟨goals, [], nesting, heights, issued⟩ := by
  simp [advance, finish]

theorem exists_of_advance_finish
    (h : advance b .finish ⟨goals, rest, nesting, heights, issued⟩ = some s) :
    ∃ m, rest = List.replicate m .terminator := by
  by_cases hall : ∀ t ∈ rest, t = .terminator
  · exact ⟨_, List.eq_replicate_of_mem hall⟩
  · simp [advance, finish, hall] at h

/-! ### All moves -/

/-- Whatever a goal does is one of the moves. -/
theorem move_of_advance (h : advance b goal ⟨goals, rest, nesting, heights, issued⟩ = some s) :
    Move b ⟨goal :: goals, rest, nesting, heights, issued⟩ s := by
  cases goal with
  | statement =>
    rcases assign_or_not rest with ⟨text, us, rfl⟩ | hne
    · rw [advance_statement_assign] at h
      cases h
      exact .assign text
    · rw [advance_statement_expression hne] at h
      cases h
      exact .plain hne
  | expression level =>
    rw [advance_expression] at h
    cases h
    exact .descend level
  | more level =>
    by_cases hop : ∀ token ∈ rest.head?, level.operator? token = none
    · rw [advance_more_of_stops hop] at h
      cases h
      exact .stop hop
    · obtain ⟨operator, ts, rfl⟩ := Level.exists_operator hop
      rw [advance_operator] at h
      cases h
      exact .operator operator
  | value =>
    rcases exists_of_advance_value h with ⟨a, ts, rfl⟩ | ⟨⟨ts, rfl⟩, hlt⟩
    · rw [advance_atom] at h
      cases h
      exact .atom a
    · rw [advance_paren hlt] at h
      cases h
      exact .paren hlt
  | close =>
    obtain ⟨ts, rfl⟩ := exists_of_advance_close h
    cases h
    exact .close
  | reduce kind =>
    simp only [advance, reduce] at h
    split at h
    · next hb =>
      cases h
      exact .reduce kind hb
    · cases h
  | finish =>
    obtain ⟨m, rfl⟩ := exists_of_advance_finish h
    rw [advance_finish] at h
    cases h
    exact .finish m

/-- A run goes on with the move that can be made. -/
theorem Move.run_eq {r : Recognition} (h : Move b r s) : run b r = run b s := by
  cases h with
  | assign text => exact run_cons (advance_statement_assign text)
  | plain h => exact run_cons (advance_statement_expression h)
  | descend level => exact run_cons (advance_expression level)
  | operator operator => exact run_cons (advance_operator operator)
  | stop h => exact run_cons (advance_more_of_stops h)
  | atom a => exact run_cons (advance_atom a)
  | paren h => exact run_cons (advance_paren h)
  | close => exact run_cons rfl
  | reduce kind h => exact run_cons (if_pos h)
  | finish m => exact run_cons (advance_finish m)

/-- What every move keeps holds at the end of a run. -/
theorem run_induction {P : Recognition → Prop} {r : Recognition} (h : P r)
    (hmove : ∀ r s, Move b r s → P r → P s) : P (r.run b) := by
  fun_induction Recognition.run b r with
  | case1 r hg => exact h
  | case2 r goal goals hg ha => exact h
  | case3 r goal goals hg s ha ih =>
    obtain ⟨_, rest, nesting, heights, issued⟩ := r
    cases hg
    exact ih (hmove _ _ (move_of_advance ha) h)

/-- A run ends where the first goal left cannot be met. -/
theorem advance_run_eq_none {r : Recognition} (h : (r.run b).goals = goal :: goals) :
    advance b goal { r.run b with goals } = none := by
  fun_induction Recognition.run b r with
  | case1 r hg => rw [hg] at h; cases h
  | case2 r goal' goals' hg ha =>
    rw [hg] at h
    cases h
    exact ha
  | case3 r goal goals hg s ha ih => exact ih h

end Recognition

end Arbor
