import Arbor.Engine.Script
import Arbor.Grammar

/-!
# Recognition

A program is recognised from left to right by a list of *goals*, the innermost
first: parts of the grammar that are still to be found in the tokens to come. A
move meets the first goal, or replaces it by the goals of its parts, and looks at
no more tokens than the two that start a statement. Every goal met leaves the
calls that build its tree, so that one tree is on the stack for every operand
found. Recognition keeps the heights of these trees, and refuses to build one that
is taller than the bound.

Moves come to an end: `Recognition.work` goes down with each of them
(`Recognition.work_advance`).
-/

namespace Arbor

/-- What is still to be found, or done. -/
inductive Goal
  | statement
  /-- Operands of a level, joined by its operators. -/
  | expression (level : Level)
  /-- Operators of a level, each with the operand on its right. -/
  | more (level : Level)
  /-- A literal, a name, or an expression in parentheses. -/
  | value
  /-- The end of a parenthesis. -/
  | close
  /-- Both operands of a node were found, and it is to be built. -/
  | reduce (kind : Kind)
  /-- Nothing but ends of statements. -/
  | finish
  deriving DecidableEq

namespace Level

/-- What stands between the operators of a level. -/
def operand : Level → Goal
  | comparison => .expression sum
  | sum => .expression product
  | product => .value

end Level

/-- How far recognition has come. -/
structure Recognition where
  /-- What is still to be found, the innermost goal first. -/
  goals : List Goal
  /-- The tokens to come. -/
  rest : List Token
  /-- How many parentheses are open. -/
  nesting : Nat := 0
  /-- The heights of the trees built, the most recent first. -/
  heights : List Nat := []
  /-- The calls issued, the last one first. -/
  issued : Script := []
  deriving DecidableEq

namespace Recognition

/-- Recognition of a program that has not begun. -/
def start (tokens : List Token) : Recognition :=
  { goals := [.statement, .finish], rest := tokens.dropWhile (· = .terminator) }

/-- Issues a call that pushes a leaf. -/
def push (r : Recognition) (op : BuildOp) : Recognition :=
  { r with heights := 1 :: r.heights, issued := op :: r.issued }

/-- The height of a node over the two trees on top. -/
def pairHeight (r : Recognition) : Nat := 1 + (r.heights.take 2).foldr max 0

/-- Issues the reduction of the two trees on top, unless the tree would be too tall. -/
def reduce (b : Bounds) (kind : Kind) (r : Recognition) : Option Recognition :=
  if r.pairHeight ≤ b.maxDepth then
    some { r with
      heights := r.pairHeight :: r.heights.drop 2
      issued := .reduce kind 2 :: r.issued }
  else none

/-- Finds an expression in place of a statement, or the name and the `=` before one. -/
def statement (r : Recognition) : Recognition :=
  match r.rest with
  | .ident name :: .assign :: rest =>
    { r.push (.pushSymbol name) with
      rest
      goals := .expression .comparison :: .reduce .assign :: r.goals }
  | _ => { r with goals := .expression .comparison :: r.goals }

/-- Finds an operator of the level, or nothing. -/
def more (level : Level) (r : Recognition) : Recognition :=
  match r.rest with
  | [] => r
  | token :: rest =>
    match level.operator? token with
    | some kind => { r with rest, goals := level.operand :: .reduce kind :: .more level :: r.goals }
    | none => r

/-- Finds a leaf or the start of a parenthesis. -/
def value (b : Bounds) (r : Recognition) : Option Recognition :=
  match r.rest with
  | [] => none
  | token :: rest =>
    match token.leaf? with
    | some op => some { r.push op with rest }
    | none =>
      if token = .leftParen ∧ r.nesting < b.maxNesting then
        some { r with
          rest
          nesting := r.nesting + 1
          goals := .expression .comparison :: .close :: r.goals }
      else none

/-- Finds the end of a parenthesis. -/
def close (r : Recognition) : Option Recognition :=
  match r.rest with
  | .rightParen :: rest => some { r with rest, nesting := r.nesting - 1 }
  | _ => none

/-- Finds nothing but ends of statements. -/
def finish (r : Recognition) : Option Recognition :=
  if r.rest.all (· = .terminator) then some { r with rest := [] } else none

/-- The move that `goal` asks for, when `r` has the goals after it; none if the
    tokens or the bounds rule it out. -/
def advance (b : Bounds) (goal : Goal) (r : Recognition) : Option Recognition :=
  match goal with
  | .statement => some r.statement
  | .expression level => some { r with goals := level.operand :: .more level :: r.goals }
  | .more level => some (r.more level)
  | .value => r.value b
  | .close => r.close
  | .reduce kind => r.reduce b kind
  | .finish => r.finish

end Recognition

/-! ### Moves come to an end -/

namespace Goal

/-- How many moves a goal takes at most before a token is read. -/
def weight : Goal → Nat
  | statement => 9
  | expression .comparison => 7
  | expression .sum => 5
  | expression .product => 3
  | _ => 1

/-- The weight of all goals together. -/
def weights : List Goal → Nat
  | [] => 0
  | goal :: goals => goal.weight + weights goals

end Goal

namespace Recognition

/-- More than the number of moves to come. -/
def work (r : Recognition) : Nat := 10 * r.rest.length + Goal.weights r.goals

theorem work_advance {b : Bounds} {goal : Goal} {r s : Recognition}
    (h : advance b goal r = some s) : s.work < goal.weight + r.work := by
  cases goal with
  | statement =>
    simp only [advance, statement, Option.some.injEq] at h
    subst h
    split
    · next hr => simp [work, Goal.weights, Goal.weight, hr]; omega
    · simp [work, Goal.weights, Goal.weight]; omega
  | expression level =>
    simp only [advance, Option.some.injEq] at h
    subst h
    cases level <;> simp [work, Goal.weights, Goal.weight, Level.operand] <;> omega
  | more level =>
    simp only [advance, more, Option.some.injEq] at h
    subst h
    split
    · simp [work, Goal.weight]
    · next hr =>
      split
      · cases level <;> simp [work, Goal.weights, Goal.weight, Level.operand, hr] <;> omega
      · simp [work, Goal.weight]
  | value =>
    simp only [advance, value] at h
    split at h
    · cases h
    · next hr =>
      split at h
      · cases h
        simp [work, Goal.weight, push, hr]; omega
      · split at h
        · cases h
          simp [work, Goal.weights, Goal.weight, hr]; omega
        · cases h
  | close =>
    simp only [advance, close] at h
    split at h
    · next hr =>
      cases h
      simp [work, Goal.weight, hr]; omega
    · cases h
  | reduce kind =>
    simp only [advance, reduce] at h
    split at h
    · cases h
      simp [work, Goal.weight]
    · cases h
  | finish =>
    simp only [advance, finish] at h
    split at h
    · cases h
      simp [work, Goal.weight]; omega
    · cases h

/-- Makes moves until no goal is left or the first one cannot be met. -/
def run (b : Bounds) (r : Recognition) : Recognition :=
  match _hg : r.goals with
  | [] => r
  | goal :: goals =>
    match _h : advance b goal { r with goals } with
    | none => r
    | some s => s.run b
termination_by r.work
decreasing_by
  have := work_advance _h
  simp only [work, _hg, Goal.weights] at this ⊢
  omega

/-- The calls issued so far, with a mark of failure behind them if goals are left. -/
def script (r : Recognition) : Script :=
  r.issued.reverse ++ if r.goals.isEmpty then [] else [.setError]

end Recognition

/-- The calls by which the tokens of a program build its tree, or the calls up to
    where the tokens are no program, and a mark of failure. -/
def Script.ofTokens (b : Bounds) (tokens : List Token) : Script :=
  ((Recognition.start tokens).run b).script

end Arbor
