import Arbor.Proofs.Grammar.Shape
import Arbor.Proofs.Node.Walk

/-!
# Trees written as tokens

A tree is written operand, operator, operand, and an operand stands in parentheses where its
own operator binds less tightly than the operator beside it, or no more tightly on its right
(`Node.write`). The grammar derives a well-formed tree back from what is written: what is
written of an expression is a phrase of every level that its operator belongs to or that is
looser, and the phrase has the tree (`Node.IsExpression.derives`). So a well-formed tree is
that of a program with the tokens written (`Node.IsWellFormed.exists_program`).
-/

namespace Arbor

/-! ### Writing -/

namespace Kind

/-- How tightly the operator of a node binds its operands. A leaf has none that would part. -/
def binding : Kind → Nat
  | assign => 0
  | compare | inverseCompare => 1
  | add | subtract => 2
  | multiply | divide => 3
  | number | boolean | symbol | nil => 4

/-- The word for the operator of a node. -/
def sign? : Kind → Option Token
  | assign => some .assign
  | compare => some .equals
  | inverseCompare => some .notEquals
  | add => some .plus
  | subtract => some .minus
  | multiply => some .star
  | divide => some .slash
  | number | boolean | symbol | nil => none

end Kind

/-- The tokens, in parentheses if need be. -/
def Token.enclose (needed : Bool) (tokens : List Token) : List Token :=
  if needed then .leftParen :: (tokens ++ [.rightParen]) else tokens

namespace Node

/-- The tokens that a tree is written by, with parentheses only where they are needed, if its
    symbols stand for `names` from left to right. -/
def write (names : List String) : Node → List Token
  | mk .number value _ => [.number value.toNatClampNeg]
  | mk .boolean value _ => [.boolean (value ≠ 0)]
  | mk .nil _ _ => [.nil]
  | mk .symbol _ _ => (names.head?.map .ident).toList
  | mk kind _ [left, right] =>
    Token.enclose (left.kind.binding < kind.binding)
        (left.write (names.take left.symbols.length)) ++
      (kind.sign?.toList ++
        Token.enclose (right.kind.binding ≤ kind.binding)
          (right.write (names.drop left.symbols.length)))
  | _ => []

end Node

theorem length_numbers (next count : Nat) : (numbers next count).length = count := by
  rw [numbers, List.length_map, List.length_range']

/-! ### Phrases by their parts -/

namespace Level

/-- How tightly the phrases of a part of the grammar bind. -/
def binding : Option Level → Nat
  | some comparison => 1
  | some sum => 2
  | some product => 3
  | none => 4

theorem binding_tighter (level : Level) : binding level.tighter = binding (some level) + 1 := by
  cases level <;> rfl

/-- No part binds more tightly than the values. -/
theorem binding_le (part : Option Level) : binding part ≤ binding none := by
  cases part with
  | none => exact Nat.le_refl _
  | some level => cases level <;> decide

end Level

namespace Operator

variable {level : Level}

theorem binding_kind (operator : Operator level) :
    operator.kind.binding = Level.binding (some level) := by cases operator <;> rfl

theorem write_pair (operator : Operator level) (left right : Node) (names : List String) :
    (Node.branch operator.kind [left, right]).write names =
      Token.enclose (left.kind.binding < operator.kind.binding)
          (left.write (names.take left.symbols.length)) ++
        operator.token ::
          Token.enclose (right.kind.binding ≤ operator.kind.binding)
            (right.write (names.drop left.symbols.length)) := by
  cases operator <;> rfl

end Operator

/-- The tail with one more operand. -/
def Tail.snoc {level : Level} (operator : Operator level) (operand : Phrase level.tighter) :
    Tail level → Tail level
  | .nil => .cons operator operand .nil
  | .cons o p more => .cons o p (more.snoc operator operand)

namespace Tail

variable {level : Level} (operator : Operator level) (operand : Phrase level.tighter)

theorem tokens_snoc (m : Tail level) :
    (m.snoc operator operand).tokens = m.tokens ++ operator.token :: operand.tokens := by
  fun_induction snoc operator operand m with
  | case1 => simp [Tail.tokens]
  | case2 level operator operand o p more ih => simp [Tail.tokens, ih]

theorem node_snoc (m : Tail level) (next : Nat) (left : Node) :
    (m.snoc operator operand).node next left =
      .branch operator.kind
        [m.node next left, operand.node (next + (Token.names m.tokens).length)] := by
  fun_induction snoc operator operand m generalizing next left with
  | case1 => rfl
  | case2 level operator operand o p more ih =>
    rw [Tail.node, ih, Tail.node, Tail.tokens, o.names_cons, Token.names_append,
      List.length_append, Nat.add_assoc]

theorem nesting_snoc (m : Tail level) :
    (m.snoc operator operand).nesting = max m.nesting operand.nesting := by
  fun_induction snoc operator operand m with
  | case1 => simp [Tail.nesting]
  | case2 level operator operand o p more ih => rw [Tail.nesting, ih, Tail.nesting, Nat.max_assoc]

end Tail

/-- Some phrase of the part has the tokens and the tree, if its first name has the number
    `next`, and its parentheses nest less than `depth` deep. -/
def Phrase.Derives (part : Option Level) (next : Nat) (tokens : List Token) (root : Node)
    (depth : Nat) : Prop :=
  ∃ p : Phrase part, p.tokens = tokens ∧ p.node next = root ∧ p.nesting < depth

namespace Phrase.Derives

variable {part part' : Option Level} {level : Level} {next depth depth' : Nat}
  {tokens left right : List Token} {root a b : Node}

theorem mono (h : Derives part next tokens root depth) (hd : depth ≤ depth') :
    Derives part next tokens root depth' := by
  obtain ⟨p, ht, hn, hp⟩ := h
  exact ⟨p, ht, hn, Nat.lt_of_lt_of_le hp hd⟩

/-- An operand of a level is an expression of the level. -/
theorem alone (h : Derives level.tighter next tokens root depth) :
    Derives (some level) next tokens root depth := by
  obtain ⟨p, rfl, rfl, hp⟩ := h
  exact ⟨.chain p .nil, List.append_nil _, rfl, by rwa [Phrase.nesting, Tail.nesting, Nat.max_zero]⟩

/-- What is derived as a part of the grammar is derived as every looser part. -/
theorem loosen (h : Derives part next tokens root depth)
    (hb : Level.binding part' ≤ Level.binding part) : Derives part' next tokens root depth := by
  have product (hb : 3 ≤ Level.binding part) : Derives (some .product) next tokens root depth := by
    match part with
    | some .product => exact h
    | none => exact alone h
  have sum (hb : 2 ≤ Level.binding part) : Derives (some .sum) next tokens root depth := by
    match part with
    | some .sum => exact h
    | some .product | none => exact alone (product (by decide))
  match part', part with
  | none, none => exact h
  | some .product, _ => exact product hb
  | some .sum, _ => exact sum hb
  | some .comparison, some .comparison => exact h
  | some .comparison, some .sum | some .comparison, some .product | some .comparison, none =>
    exact alone (sum (by decide))

/-- What is derived as an expression is derived as every part in parentheses. -/
theorem paren (h : Derives (some .comparison) next tokens root depth) :
    Derives part next (.leftParen :: (tokens ++ [.rightParen])) root (depth + 1) := by
  obtain ⟨e, rfl, rfl, hp⟩ := h
  have hvalue : Derives none next (.leftParen :: (e.tokens ++ [.rightParen])) (e.node next)
      (depth + 1) := ⟨.paren e, rfl, rfl, Nat.succ_lt_succ hp⟩
  exact hvalue.loosen (Level.binding_le part)

/-- An operator of a level joins an expression of the level and an operand. -/
theorem pair (operator : Operator level) (hl : Derives (some level) next left a depth)
    (hr : Derives level.tighter (next + a.symbols.length) right b depth) :
    Derives (some level) next (left ++ operator.token :: right) (.branch operator.kind [a, b])
      depth := by
  obtain ⟨p, rfl, rfl, hp⟩ := hl
  obtain ⟨q, rfl, rfl, hq⟩ := hr
  -- The names of the expression on the left come first, and it has a symbol for each.
  rw [p.symbols_node, length_numbers]
  match p, hp with
  | .chain first more, hp =>
    rw [Phrase.nesting] at hp
    refine ⟨.chain first (more.snoc operator q), ?_, ?_, ?_⟩
    · rw [Phrase.tokens, more.tokens_snoc, Phrase.tokens, List.append_assoc]
    · rw [Phrase.node, more.node_snoc, Phrase.node, Phrase.tokens, Token.names_append,
        List.length_append, Nat.add_assoc]
    · rw [Phrase.nesting, more.nesting_snoc]
      omega

/-- What binds tightly enough without parentheses is derived, with them if it does not, as
    every part. -/
theorem enclosed (part : Option Level) (hb : 1 ≤ root.kind.binding)
    (h : ∀ part, Level.binding part ≤ root.kind.binding → Derives part next tokens root depth) :
    Derives part next (Token.enclose (root.kind.binding < Level.binding part) tokens) root
      (depth + 1) := by
  by_cases hlt : root.kind.binding < Level.binding part
  · rw [decide_eq_true hlt]
    exact (h (some .comparison) hb).paren
  · rw [decide_eq_false hlt]
    exact (h part (Nat.le_of_not_lt hlt)).mono (Nat.le_succ depth)

/-- The word for an atom is derived as every part. -/
theorem atom (part : Option Level) (next : Nat) (a : Atom) :
    Derives part next [a.token] (a.node next) 1 := by
  have h : Derives none next [a.token] (a.node next) 1 := ⟨.atom a, rfl, rfl, Nat.one_pos⟩
  exact h.loosen (Level.binding_le part)

end Phrase.Derives

/-! ### Trees by what is written of them -/

/-- The numbers of a row of names are those of its first part and those of the rest. -/
theorem eq_numbers_of_append {xs ys : List Int64} {next : Nat} {names : List String}
    (h : xs ++ ys = numbers next names.length) :
    xs = numbers next (names.take xs.length).length ∧
      ys = numbers (next + xs.length) (names.drop xs.length).length := by
  have hlength : xs.length + ys.length = names.length := by
    rw [← List.length_append, h, length_numbers]
  have htake : (names.take xs.length).length = xs.length := by
    rw [List.length_take]
    omega
  have hdrop : (names.drop xs.length).length = ys.length := by
    rw [List.length_drop]
    omega
  rw [← hlength, ← numbers_append] at h
  rw [htake, hdrop]
  exact List.append_inj h (length_numbers _ _).symm

namespace Node

variable {root : Node}

theorem IsExpression.one_le_binding (h : root.IsExpression) : 1 ≤ root.kind.binding := by
  cases h with
  | pair operator _ _ =>
    change 1 ≤ operator.kind.binding
    cases operator <;> decide
  | _ =>
    change 1 ≤ 4
    decide

/-- What is written of an expression is derived, with its tree, as every part of the grammar
    that binds no more tightly. -/
theorem IsExpression.derives (h : root.IsExpression) :
    ∀ {next : Nat} {names : List String}, root.symbols = numbers next names.length →
      ∀ part : Option Level, Level.binding part ≤ root.kind.binding →
        Phrase.Derives part next (root.write names) root root.height := by
  induction h with
  | @number value h =>
    intro next names _ part _
    have hd := Phrase.Derives.atom part next (.number value.toNatClampNeg)
    rwa [Atom.node, Int64.ofNat_toNatClampNeg value h] at hd
  | boolean value =>
    intro next names _ part _
    cases value <;> exact .atom part next (.boolean _)
  | nil =>
    intro next names _ part _
    exact .atom part next .nil
  | symbol value =>
    intro next names hs part _
    -- There is one name, and the symbol has its number.
    match names, hs with
    | [name], hs =>
      obtain rfl : value = Int64.ofNat next := (List.cons.inj hs).1
      exact .atom part next (.name name)
  | @pair level operator left right hl hr ihl ihr =>
    intro next names hs part hb
    rw [symbols_pair operator.kind_ne_symbol] at hs
    obtain ⟨hsl, hsr⟩ := eq_numbers_of_append hs
    have hleft := Phrase.Derives.enclosed (some level) hl.one_le_binding (ihl hsl)
    have hright := Phrase.Derives.enclosed level.tighter hr.one_le_binding (ihr hsr)
    have hpair := Phrase.Derives.pair operator (hleft.mono (Nat.le_max_left _ _))
      (hright.mono (Nat.le_max_right _ _))
    rw [operator.write_pair, height_pair, Nat.add_comm 1, ← Nat.add_max_add_right]
    simp only [Level.binding_tighter, ← operator.binding_kind, Nat.lt_add_one_iff] at hpair
    exact hpair.loosen (operator.binding_kind ▸ hb)

/-- Nothing of an assignment stands in parentheses. -/
theorem write_assign {source : Node} (h : source.IsExpression) (target : Int64) (name : String)
    (names : List String) :
    (branch .assign [leaf .symbol target, source]).write (name :: names) =
      .ident name :: .assign :: source.write names := by
  have hb : decide (source.kind.binding ≤ 0) = false :=
    decide_eq_false (Nat.not_le_of_lt h.one_le_binding)
  change .ident name :: .assign :: Token.enclose (source.kind.binding ≤ 0) (source.write names) = _
  rw [hb]
  rfl

/-- The symbol that is assigned to is the first. -/
theorem exists_of_symbols_assign {target : Int64} {source : Node} {names : List String}
    (h : (branch .assign [leaf .symbol target, source]).symbols = numbers 0 names.length) :
    ∃ name rest, names = name :: rest ∧ target = 0 ∧ source.symbols = numbers 1 rest.length := by
  have hk : Kind.assign ≠ .symbol := nofun
  rw [symbols_pair hk] at h
  obtain ⟨ht, hs⟩ := eq_numbers_of_append h
  match names, ht, hs with
  | name :: rest, ht, hs => exact ⟨name, rest, rfl, (List.cons.inj ht).1, hs⟩

/-- A well-formed tree is that of a program with the tokens that are written of the tree. -/
theorem IsWellFormed.exists_program {names : List String} (h : root.IsWellFormed names) :
    ∃ p : Program, p.tokens = root.write names ∧ p.node = root ∧ p.nesting < root.height := by
  obtain ⟨hstatement, hs, -⟩ := h
  cases hstatement with
  | expression he =>
    obtain ⟨e, ht, hn, hp⟩ := he.derives hs (some .comparison) he.one_le_binding
    exact ⟨⟨0, .expression e, 0⟩, (List.append_nil _).trans ht, hn, hp⟩
  | @assign target source he =>
    obtain ⟨name, rest, rfl, rfl, hsource⟩ := exists_of_symbols_assign hs
    obtain ⟨e, ht, hn, hp⟩ := he.derives hsource (some .comparison) he.one_le_binding
    refine ⟨⟨0, .assign name e, 0⟩, ?_, ?_, ?_⟩
    · rw [write_assign he, ← ht]
      exact List.append_nil _
    · rw [Program.node, Statement.node, hn]
    · rw [height_pair]
      change e.nesting < _
      omega

/-! ### The words that are written -/

/-- Parentheses bring no names. -/
theorem names_enclose (needed : Bool) (tokens : List Token) :
    Token.names (Token.enclose needed tokens) = Token.names tokens := by
  cases needed with
  | false => rfl
  | true =>
    rw [Token.enclose, if_pos rfl, Token.names_cons rfl, Token.names_append, Token.names_cons rfl,
      Token.names_nil, List.append_nil]

/-- The names written are those that the symbols stand for. -/
theorem IsExpression.names_write (h : root.IsExpression) {names : List String}
    (hn : root.symbols.length = names.length) : Token.names (root.write names) = names := by
  induction h generalizing names with
  | symbol value =>
    match names, hn with
    | [name], _ => rfl
  | @pair level operator left right hl hr ihl ihr =>
    rw [symbols_pair operator.kind_ne_symbol, List.length_append] at hn
    have htake : left.symbols.length = (names.take left.symbols.length).length := by
      rw [List.length_take]
      omega
    have hdrop : right.symbols.length = (names.drop left.symbols.length).length := by
      rw [List.length_drop]
      omega
    rw [operator.write_pair, Token.names_append, operator.names_cons, names_enclose, names_enclose,
      ihl htake, ihr hdrop, List.take_append_drop]
  | _ =>
    obtain rfl : names = [] := List.length_eq_zero_iff.1 hn.symm
    rfl

theorem isSpelled_of_mem_enclose {needed : Bool} {tokens : List Token}
    (h : ∀ t ∈ tokens, t.isSpelled = true) : ∀ t ∈ Token.enclose needed tokens, t.isSpelled = true := by
  have hleft : Token.leftParen.isSpelled = true := by decide +kernel
  have hright : Token.rightParen.isSpelled = true := by decide +kernel
  cases needed with
  | false => exact h
  | true =>
    exact List.forall_mem_cons.2 ⟨hleft, List.forall_mem_append.2
      ⟨h, List.forall_mem_singleton.2 hright⟩⟩

/-- What is written of an expression are words with a spelling. -/
theorem IsExpression.isSpelled_of_mem_write (h : root.IsExpression) {names : List String}
    (hn : ∀ name ∈ names, Token.IsName name) : ∀ t ∈ root.write names, t.isSpelled = true := by
  induction h generalizing names with
  | @number value h =>
    exact List.forall_mem_singleton.2
      (Token.isSpelled_number (Nat.le_of_lt_succ value.toNatClampNeg_lt))
  | boolean value =>
    exact List.forall_mem_singleton.2 (Token.isSpelled_of_isWord trivial nofun)
  | nil => exact List.forall_mem_singleton.2 (Token.isSpelled_of_isWord trivial nofun)
  | symbol value =>
    cases names with
    | nil => exact List.forall_mem_nil _
    | cons name names =>
      exact List.forall_mem_singleton.2 (Token.isSpelled_ident (hn name List.mem_cons_self))
  | @pair level operator left right hl hr ihl ihr =>
    have hoperator : operator.token.isSpelled = true := by cases operator <;> decide +kernel
    rw [operator.write_pair]
    exact List.forall_mem_append.2
      ⟨isSpelled_of_mem_enclose (ihl fun name h => hn name (List.mem_of_mem_take h)),
        List.forall_mem_cons.2 ⟨hoperator,
          isSpelled_of_mem_enclose (ihr fun name h => hn name (List.mem_of_mem_drop h))⟩⟩

/-- The names written of a well-formed tree are its names, and all words have a spelling. -/
theorem IsWellFormed.write_spec {names : List String} (h : root.IsWellFormed names) :
    Token.names (root.write names) = names ∧ ∀ t ∈ root.write names, t.isSpelled = true := by
  obtain ⟨hstatement, hs, hn⟩ := h
  cases hstatement with
  | expression he =>
    exact ⟨he.names_write (by rw [hs, length_numbers]), he.isSpelled_of_mem_write hn⟩
  | @assign target source he =>
    obtain ⟨name, rest, rfl, -, hsource⟩ := exists_of_symbols_assign hs
    obtain ⟨hname, hrest⟩ := List.forall_mem_cons.1 hn
    have hassign : Token.assign.isSpelled = true := by decide +kernel
    have hnames := he.names_write (by rw [hsource, length_numbers])
    rw [write_assign he]
    exact ⟨congrArg (name :: ·) hnames, List.forall_mem_cons.2 ⟨Token.isSpelled_ident hname,
      List.forall_mem_cons.2 ⟨hassign, he.isSpelled_of_mem_write hrest⟩⟩⟩

end Node

end Arbor
