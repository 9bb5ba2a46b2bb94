import Arbor.Grammar

/-!
# Derivations of the expression grammar

The grammar is written down here as a type of derivations, one constructor for each
way a rule can be used:

* a *value* is an atom or an expression in parentheses;
* an expression of a level is a first operand and a `Tail` of further operands, each
  behind an operator of the level; an operand is an expression of the next tighter
  level, or a value;
* a *statement* is an expression, or a name, `=` and an expression;
* a *program* is a statement among ends of statements.

`Phrase.tokens` are the tokens that a derivation derives. They determine the
derivation: of two derivations whose tokens begin a list, and go on until no operator
continues them, neither goes further than the other (`Phrase.tokens_append_inj`), so the
grammar is unambiguous (`Program.tokens_inj`).
-/

namespace Arbor

/-! ### The rules -/

/-- The operators of a level. -/
inductive Operator : Level → Type
  | equals : Operator .comparison
  | notEquals : Operator .comparison
  | plus : Operator .sum
  | minus : Operator .sum
  | star : Operator .product
  | slash : Operator .product

namespace Operator

/-- The word for the operator. -/
def token {level : Level} : Operator level → Token
  | equals => .equals
  | notEquals => .notEquals
  | plus => .plus
  | minus => .minus
  | star => .star
  | slash => .slash

/-- The kind of node that the operator makes of its operands. -/
def kind {level : Level} : Operator level → Kind
  | equals => .compare
  | notEquals => .inverseCompare
  | plus => .add
  | minus => .subtract
  | star => .multiply
  | slash => .divide

end Operator

/-- A literal or a name. -/
inductive Atom
  | number (value : Nat)
  | boolean (value : Bool)
  | nil
  | name (text : String)

namespace Atom

/-- The word for the atom. -/
def token : Atom → Token
  | number value => .number value
  | boolean value => .boolean value
  | nil => .nil
  | name text => .ident text

end Atom

/-- The level of the operands of a level; none if they are values. -/
def Level.tighter : Level → Option Level
  | comparison => some sum
  | sum => some product
  | product => none

mutual

/-- The derivations of the expressions of a level, or of values. -/
inductive Phrase : Option Level → Type
  | atom (a : Atom) : Phrase none
  | paren (inner : Phrase (some .comparison)) : Phrase none
  | chain {level : Level} (first : Phrase level.tighter) (more : Tail level) : Phrase (some level)

/-- The derivations of operators of a level, each with the operand on its right. -/
inductive Tail : Level → Type
  | nil {level : Level} : Tail level
  | cons {level : Level} (operator : Operator level) (operand : Phrase level.tighter)
      (more : Tail level) : Tail level

end

/-- The derivations of expressions. -/
abbrev Expression := Phrase (some .comparison)

/-- The derivations of statements. -/
inductive Statement
  | expression (e : Expression)
  | assign (name : String) (e : Expression)

/-- The derivations of programs: a statement, and how many ends of statements stand
    before and after it. -/
structure Program where
  before : Nat
  statement : Statement
  after : Nat

/-! ### What is derived -/

mutual

/-- The tokens that a phrase derives. -/
def Phrase.tokens {part : Option Level} : Phrase part → List Token
  | .atom a => [a.token]
  | .paren inner => .leftParen :: (inner.tokens ++ [.rightParen])
  | .chain first more => first.tokens ++ more.tokens

/-- The tokens that a tail derives. -/
def Tail.tokens {level : Level} : Tail level → List Token
  | .nil => []
  | .cons operator operand more => operator.token :: (operand.tokens ++ more.tokens)

end

mutual

/-- How deep the parentheses of a phrase nest. -/
def Phrase.nesting {part : Option Level} : Phrase part → Nat
  | .atom _ => 0
  | .paren inner => inner.nesting + 1
  | .chain first more => max first.nesting more.nesting

/-- How deep the parentheses of a tail nest. -/
def Tail.nesting {level : Level} : Tail level → Nat
  | .nil => 0
  | .cons _ operand more => max operand.nesting more.nesting

end

namespace Statement

/-- The tokens that a statement derives. -/
def tokens : Statement → List Token
  | expression e => e.tokens
  | assign name e => .ident name :: .assign :: e.tokens

/-- How deep the parentheses of a statement nest. -/
def nesting : Statement → Nat
  | expression e => e.nesting
  | assign _ e => e.nesting

end Statement

namespace Program

/-- The tokens that a program derives. -/
def tokens (p : Program) : List Token :=
  List.replicate p.before .terminator ++ (p.statement.tokens ++ List.replicate p.after .terminator)

end Program

/-! ### Where phrases stop -/

namespace Level

/-- The levels whose operators a phrase takes in. -/
def upTo : Option Level → List Level
  | none => []
  | some product => [product]
  | some sum => [sum, product]
  | some comparison => [comparison, sum, product]

/-- What comes next is not an operator that continues the phrase. -/
def Stops (part : Option Level) (rest : List Token) : Prop :=
  ∀ level ∈ upTo part, ∀ token ∈ rest.head?, level.operator? token = none

theorem stops_none (rest : List Token) : Stops none rest := nofun

/-- A phrase stops where its operands stop and no operator of its own follows. -/
theorem stops_some_iff {level : Level} {rest : List Token} :
    Stops (some level) rest ↔
      (∀ token ∈ rest.head?, level.operator? token = none) ∧ Stops level.tighter rest := by
  cases level <;> simp [Stops, upTo, tighter]

/-- What is no operator at all stops every phrase. -/
theorem stops_of_forall {part : Option Level} {rest : List Token}
    (h : ∀ level : Level, ∀ token ∈ rest.head?, level.operator? token = none) : Stops part rest :=
  fun level _ => h level

end Level

namespace Operator

variable {level : Level}

theorem operator?_token (operator : Operator level) :
    level.operator? operator.token = some operator.kind := by cases operator <;> rfl

/-- The operators of a level are those that the level knows. -/
theorem exists_of_operator? {token : Token} {kind : Kind} (h : level.operator? token = some kind) :
    ∃ operator : Operator level, operator.token = token ∧ operator.kind = kind := by
  unfold Level.operator? at h
  split at h
  · cases h; exact ⟨.equals, rfl, rfl⟩
  · cases h; exact ⟨.notEquals, rfl, rfl⟩
  · cases h; exact ⟨.plus, rfl, rfl⟩
  · cases h; exact ⟨.minus, rfl, rfl⟩
  · cases h; exact ⟨.star, rfl, rfl⟩
  · cases h; exact ⟨.slash, rfl, rfl⟩
  · cases h

theorem token_inj {o o' : Operator level} (h : o.token = o'.token) : o = o' := by
  cases o <;> cases o' <;> first | rfl | cases h

/-- The operators of a level stop its operands. -/
theorem stops_token (operator : Operator level) (rest : List Token) :
    Level.Stops level.tighter (operator.token :: rest) := by
  cases operator <;> simp [Level.Stops, Level.upTo, Level.tighter, token, Level.operator?]

end Operator

namespace Atom

theorem token_inj {a a' : Atom} (h : a.token = a'.token) : a = a' := by
  cases a <;> cases a' <;> cases h <;> rfl

theorem token_ne_leftParen (a : Atom) : a.token ≠ .leftParen := by cases a <;> nofun

theorem token_ne_terminator (a : Atom) : a.token ≠ .terminator := by cases a <;> nofun

end Atom

namespace Level

theorem stops_rightParen (part : Option Level) (rest : List Token) :
    Stops part (.rightParen :: rest) :=
  stops_of_forall fun level token ht => by cases ht; cases level <;> rfl

theorem stops_assign (part : Option Level) (rest : List Token) :
    Stops part (.assign :: rest) :=
  stops_of_forall fun level token ht => by cases ht; cases level <;> rfl

theorem stops_replicate (part : Option Level) (n : Nat) :
    Stops part (List.replicate n .terminator) := by
  refine stops_of_forall fun level token ht => ?_
  cases n with
  | zero => cases ht
  | succ n => cases ht; cases level <;> rfl

end Level

/-- What stops a phrase stops its first operand, whatever tail comes between. -/
theorem Tail.stops {level : Level} {rest : List Token} (m : Tail level)
    (h : Level.Stops (some level) rest) : Level.Stops level.tighter (m.tokens ++ rest) := by
  cases m with
  | nil => exact (Level.stops_some_iff.1 h).2
  | cons operator operand more => exact operator.stops_token _

/-! ### Derivations are unique -/

mutual

/-- Two phrases that begin a list and stop in it are the same. -/
theorem Phrase.tokens_append_inj {part : Option Level} {ts us : List Token}
    (ht : Level.Stops part ts) (hu : Level.Stops part us) :
    ∀ p q : Phrase part, p.tokens ++ ts = q.tokens ++ us → p = q ∧ ts = us
  | .atom a, .atom a', h => by
    obtain ⟨ha, hr⟩ := List.cons.inj h
    exact ⟨congrArg _ (Atom.token_inj ha), hr⟩
  | .atom a, .paren _, h => absurd (List.cons.inj h).1 a.token_ne_leftParen
  | .paren _, .atom a, h => absurd (List.cons.inj h).1.symm a.token_ne_leftParen
  | .paren e, .paren f, h => by
    rw [Phrase.tokens, Phrase.tokens, List.cons_append, List.cons_append, List.append_assoc,
      List.append_assoc] at h
    have he := (List.cons.inj h).2
    obtain ⟨rfl, hr⟩ := Phrase.tokens_append_inj (Level.stops_rightParen _ ts)
      (Level.stops_rightParen _ us) e f he
    exact ⟨rfl, (List.cons.inj hr).2⟩
  -- A tail stops the operand before it, so the operands are told apart from the tails.
  | .chain first more, .chain first' more', h => by
    rw [Phrase.tokens, Phrase.tokens, List.append_assoc, List.append_assoc] at h
    obtain ⟨rfl, hm⟩ := Phrase.tokens_append_inj (more.stops ht) (more'.stops hu) first first' h
    obtain ⟨rfl, hr⟩ := Tail.tokens_append_inj ht hu more more' hm
    exact ⟨rfl, hr⟩

/-- Two tails that begin a list and stop in it are the same. -/
theorem Tail.tokens_append_inj {level : Level} {ts us : List Token}
    (ht : Level.Stops (some level) ts) (hu : Level.Stops (some level) us) :
    ∀ m n : Tail level, m.tokens ++ ts = n.tokens ++ us → m = n ∧ ts = us
  | .nil, .nil, h => ⟨rfl, h⟩
  -- One tail ends and the other goes on: what stops the first is an operator of its level.
  | .nil, .cons operator _ _, h => by
    have hs := (Level.stops_some_iff.1 ht).1 operator.token (by rw [show ts = _ from h]; rfl)
    rw [operator.operator?_token] at hs
    cases hs
  | .cons operator _ _, .nil, h => by
    have hs := (Level.stops_some_iff.1 hu).1 operator.token (by rw [← show _ = us from h]; rfl)
    rw [operator.operator?_token] at hs
    cases hs
  | .cons operator operand more, .cons operator' operand' more', h => by
    rw [Tail.tokens, Tail.tokens, List.cons_append, List.cons_append, List.append_assoc,
      List.append_assoc] at h
    obtain ⟨ho, hp⟩ := List.cons.inj h
    obtain rfl := Operator.token_inj ho
    obtain ⟨rfl, hm⟩ := Phrase.tokens_append_inj (more.stops ht) (more'.stops hu) operand operand' hp
    obtain ⟨rfl, hr⟩ := Tail.tokens_append_inj ht hu more more' hm
    exact ⟨rfl, hr⟩

end

/-- The expression that is a name alone. -/
def Expression.name (text : String) : Expression :=
  .chain (.chain (.chain (.atom (.name text)) .nil) .nil) .nil

/-- An expression does not go on with an `=` behind a name: a statement that begins so is
    no expression. -/
theorem Expression.tokens_append_ne (e : Expression) (n : Nat) (text : String) (us : List Token) :
    e.tokens ++ List.replicate n .terminator ≠ .ident text :: .assign :: us := by
  intro h
  have hn : e.tokens ++ List.replicate n .terminator =
      (Expression.name text).tokens ++ .assign :: us := h
  obtain ⟨-, hr⟩ :=
    Phrase.tokens_append_inj (Level.stops_replicate _ n) (Level.stops_assign _ us) _ _ hn
  cases n <;> cases hr

namespace Statement

/-- Two statements that begin a list, with nothing but ends of statements behind, are the same. -/
theorem tokens_append_inj {s t : Statement} {m n : Nat}
    (h : s.tokens ++ List.replicate m .terminator = t.tokens ++ List.replicate n .terminator) :
    s = t ∧ m = n := by
  have hlength {m n : Nat} (h : List.replicate m Token.terminator = List.replicate n .terminator) :
      m = n := by simpa using congrArg List.length h
  have hm := Level.stops_replicate (some .comparison) m
  have hn := Level.stops_replicate (some .comparison) n
  cases s with
  | expression e =>
    cases t with
    | expression f =>
      obtain ⟨rfl, hr⟩ := Phrase.tokens_append_inj hm hn e f h
      exact ⟨rfl, hlength hr⟩
    | assign text f => exact absurd h (e.tokens_append_ne m text _)
  | assign text e =>
    cases t with
    | expression f => exact absurd h.symm (f.tokens_append_ne n text _)
    | assign text' f =>
      obtain ⟨ht, hr⟩ := List.cons.inj h
      obtain rfl := Token.ident.inj ht
      obtain ⟨rfl, hends⟩ := Phrase.tokens_append_inj hm hn e f (List.cons.inj hr).2
      exact ⟨rfl, hlength hends⟩

end Statement

theorem Phrase.exists_tokens_eq_cons {part : Option Level} :
    ∀ p : Phrase part, ∃ t rest, p.tokens = t :: rest ∧ t ≠ .terminator
  | .atom a => ⟨_, [], rfl, a.token_ne_terminator⟩
  | .paren _ => ⟨_, _, rfl, nofun⟩
  | .chain first more => by
    obtain ⟨t, rest, h, ht⟩ := first.exists_tokens_eq_cons
    exact ⟨t, rest ++ more.tokens, by rw [Phrase.tokens, h]; rfl, ht⟩

theorem Statement.exists_tokens_eq_cons (s : Statement) :
    ∃ t rest, s.tokens = t :: rest ∧ t ≠ .terminator := by
  cases s with
  | expression e => exact e.exists_tokens_eq_cons
  | assign text e => exact ⟨_, _, rfl, nofun⟩

namespace Program

/-- The ends of statements before the statement of a program can be told. -/
theorem dropWhile_tokens (p : Program) :
    p.tokens.dropWhile (· = .terminator) =
      p.statement.tokens ++ List.replicate p.after .terminator := by
  obtain ⟨before, s, after⟩ := p
  induction before with
  | zero =>
    obtain ⟨t, rest, h, ht⟩ := s.exists_tokens_eq_cons
    simp [tokens, h, ht]
  | succ n ih => simpa [tokens, List.replicate_succ] using ih

/-- The grammar is unambiguous. -/
theorem tokens_inj {p q : Program} (h : p.tokens = q.tokens) : p = q := by
  have hd := congrArg (List.dropWhile (· = .terminator)) h
  rw [dropWhile_tokens, dropWhile_tokens] at hd
  -- The statement and the ends behind it are settled, and the length gives the ends before it.
  have hl := congrArg List.length h
  obtain ⟨before, s, after⟩ := p
  obtain ⟨before', s', after'⟩ := q
  obtain ⟨rfl, rfl⟩ := Statement.tokens_append_inj hd
  simp only [tokens, List.length_append, List.length_replicate] at hl
  obtain rfl : before = before' := by omega
  rfl

end Program

end Arbor
