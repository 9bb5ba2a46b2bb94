import Arbor.Proofs.Grammar.Derivation

/-!
# The tree of a derivation

The tree of a derivation has a node for every operator, over its operands: operators of
a level group to the left, as `Tail.node` says, and parentheses leave nothing behind.
A name becomes a symbol, numbered in the order of the source
(`Program.symbols_node`), and the texts of the names are those of the tokens.

A tree *fits* a bound if no node with children is taller. Heights do not depend on the
numbers of the names, so whether the tree fits can be told from the derivation
(`Statement.fits_node_iff`).
-/

namespace Arbor

namespace Token

/-- The text of a name. -/
def name? : Token → Option String
  | ident name => some name
  | _ => none

/-- The texts of the names among the tokens. -/
def names (tokens : List Token) : List String := tokens.filterMap name?

@[simp]
theorem names_nil : names [] = [] := rfl

@[simp]
theorem names_append (ts us : List Token) : names (ts ++ us) = names ts ++ names us :=
  List.filterMap_append

theorem names_cons {t : Token} (h : t.name? = none) (ts : List Token) :
    names (t :: ts) = names ts := List.filterMap_cons_none h

end Token

/-! ### Trees -/

/-- The leaf of an atom, if the next name has the number `next`. -/
def Atom.node (next : Nat) : Atom → Node
  | number value => .leaf .number (Int64.ofNat value)
  | boolean value => .leaf .boolean (if value then 1 else 0)
  | nil => .nil
  | name _ => .leaf .symbol (Int64.ofNat next)

mutual

/-- The tree of a phrase, if its first name has the number `next`. -/
def Phrase.node (next : Nat) {part : Option Level} : Phrase part → Node
  | .atom a => a.node next
  | .paren inner => inner.node next
  | .chain first more => more.node (next + (Token.names first.tokens).length) (first.node next)

/-- The tree of what stands to the left and of a tail behind it, if the first name of the
    tail has the number `next`. -/
def Tail.node (next : Nat) (left : Node) {level : Level} : Tail level → Node
  | .nil => left
  | .cons operator operand more =>
    more.node (next + (Token.names operand.tokens).length)
      (.branch operator.kind [left, operand.node next])

end

/-- The tree of a statement. -/
def Statement.node : Statement → Node
  | expression e => e.node 0
  | assign _ e => .branch .assign [.leaf .symbol 0, e.node 1]

/-- The tree of a statement, if its first name has the number `next`. -/
def Statement.nodeFrom (next : Nat) : Statement → Node
  | expression e => e.node next
  | assign _ e => .branch .assign [.leaf .symbol (Int64.ofNat next), e.node (next + 1)]

theorem Statement.nodeFrom_zero (s : Statement) : s.nodeFrom 0 = s.node := by cases s <;> rfl

namespace Program

/-- The tree of a program. -/
def node (p : Program) : Node := p.statement.node

/-- The names of a program, in the order of the source. -/
def names (p : Program) : List String := Token.names p.tokens

/-- How deep the parentheses of a program nest. -/
def nesting (p : Program) : Nat := p.statement.nesting

theorem names_eq (p : Program) : p.names = Token.names p.statement.tokens := by
  have ends (n : Nat) : Token.names (List.replicate n .terminator) = [] := by
    induction n with
    | zero => rfl
    | succ n ih => rwa [List.replicate_succ, Token.names_cons rfl]
  rw [names, tokens, Token.names_append, Token.names_append, ends, ends, List.append_nil,
    List.nil_append]

end Program

/-! ### Symbols -/

namespace Node

/-- The numbers of the symbols, from left to right. -/
def symbols (root : Node) : List Int64 :=
  (root.preorder.filter (·.kind = .symbol)).map (·.value)

theorem symbols_pair {kind : Kind} (hk : kind ≠ .symbol) (left right : Node) :
    (branch kind [left, right]).symbols = left.symbols ++ right.symbols := by
  simp [symbols, branch, preorder, preorders, Node.kind, hk]

end Node

theorem Operator.kind_ne_symbol {level : Level} (operator : Operator level) :
    operator.kind ≠ .symbol := by cases operator <;> nofun

/-- The numbers of `count` names, the first of which has the number `next`. -/
def numbers (next count : Nat) : List Int64 := (List.range' next count).map Int64.ofNat

theorem numbers_append (next m n : Nat) :
    numbers next m ++ numbers (next + m) n = numbers next (m + n) := by
  rw [numbers, numbers, numbers, ← List.map_append, List.range'_append_1]

theorem Atom.symbols_node (a : Atom) (next : Nat) :
    (a.node next).symbols = numbers next (Token.names [a.token]).length := by
  cases a <;> rfl

theorem Operator.names_cons {level : Level} (operator : Operator level) (ts : List Token) :
    Token.names (operator.token :: ts) = Token.names ts :=
  Token.names_cons (by cases operator <;> rfl) ts

mutual

theorem Phrase.symbols_node (next : Nat) {part : Option Level} :
    ∀ p : Phrase part, (p.node next).symbols = numbers next (Token.names p.tokens).length
  | .atom a => a.symbols_node next
  | .paren inner => by
    rw [Phrase.node, inner.symbols_node, Phrase.tokens, Token.names_cons rfl, Token.names_append,
      Token.names_cons rfl, Token.names_nil, List.append_nil]
  | .chain first more => by
    rw [Phrase.node, more.symbols_node, first.symbols_node, numbers_append, Phrase.tokens,
      Token.names_append, List.length_append]

theorem Tail.symbols_node (next : Nat) (left : Node) {level : Level} :
    ∀ m : Tail level,
      (m.node next left).symbols = left.symbols ++ numbers next (Token.names m.tokens).length
  | .nil => (List.append_nil _).symm
  | .cons operator operand more => by
    rw [Tail.node, more.symbols_node, Node.symbols_pair operator.kind_ne_symbol,
      operand.symbols_node, List.append_assoc, numbers_append, Tail.tokens, operator.names_cons,
      Token.names_append, List.length_append]

end

/-- The symbols of a program are numbered in the order of the source, and so name its names. -/
theorem Program.symbols_node (p : Program) : p.node.symbols = numbers 0 p.names.length := by
  rw [p.names_eq, node]
  cases p.statement with
  | expression e => exact e.symbols_node 0
  | assign text e =>
    have hk : Kind.assign ≠ .symbol := nofun
    have hn : (Token.names (Statement.assign text e).tokens).length =
        1 + (Token.names e.tokens).length := Nat.add_comm _ 1
    rw [Statement.node, Node.symbols_pair hk, e.symbols_node, hn, ← numbers_append]
    rfl

/-! ### Heights -/

mutual

/-- The height of the tree of a phrase. -/
def Phrase.height {part : Option Level} : Phrase part → Nat
  | .atom _ => 1
  | .paren inner => inner.height
  | .chain first more => more.height first.height

/-- The height of the tree of a tail behind something of height `left`. -/
def Tail.height (left : Nat) {level : Level} : Tail level → Nat
  | .nil => left
  | .cons _ operand more => more.height (1 + max left operand.height)

end

mutual

/-- No pair in the tree of a phrase is taller than the bound. -/
def Phrase.Within (bound : Nat) {part : Option Level} : Phrase part → Prop
  | .atom _ => True
  | .paren inner => inner.Within bound
  | .chain first more => first.Within bound ∧ more.Within bound first.height

/-- No pair that a tail adds behind something of height `left` is taller than the bound. -/
def Tail.Within (bound left : Nat) {level : Level} : Tail level → Prop
  | .nil => True
  | .cons _ operand more =>
    operand.Within bound ∧ 1 + max left operand.height ≤ bound ∧
      more.Within bound (1 + max left operand.height)

end

namespace Node

variable {bound : Nat}

/-- No node with children is taller than the bound. -/
def Fits (bound : Nat) (root : Node) : Prop :=
  ∀ n ∈ root.preorder, n.children ≠ [] → n.height ≤ bound

theorem fits_leaf (kind : Kind) (value : Int64) : (leaf kind value).Fits bound := by
  intro n hn hc
  cases List.mem_singleton.1 hn
  exact absurd rfl hc

theorem height_pair (kind : Kind) (left right : Node) :
    (branch kind [left, right]).height = 1 + max left.height right.height := by
  simp [branch, height, heights]

theorem fits_pair {kind : Kind} {left right : Node} :
    (branch kind [left, right]).Fits bound ↔
      1 + max left.height right.height ≤ bound ∧ left.Fits bound ∧ right.Fits bound := by
  have hp : (branch kind [left, right]).preorder =
      branch kind [left, right] :: (left.preorder ++ right.preorder) := by
    simp [branch, preorder, preorders]
  have hc : (branch kind [left, right]).children ≠ [] := List.cons_ne_nil _ _
  rw [← height_pair kind, Fits, hp, List.forall_mem_cons, List.forall_mem_append]
  exact and_congr_left fun _ => imp_iff_right hc

end Node

theorem Atom.height_node (a : Atom) (next : Nat) : (a.node next).height = 1 := by
  cases a <;> rfl

theorem Atom.fits_node (a : Atom) (next bound : Nat) : (a.node next).Fits bound := by
  cases a <;> exact Node.fits_leaf _ _

mutual

theorem Phrase.height_node (next : Nat) {part : Option Level} :
    ∀ p : Phrase part, (p.node next).height = p.height
  | .atom a => a.height_node next
  | .paren inner => inner.height_node next
  | .chain first more => by
    rw [Phrase.node, more.height_node, first.height_node, Phrase.height]

theorem Tail.height_node (next : Nat) (left : Node) {level : Level} :
    ∀ m : Tail level, (m.node next left).height = m.height left.height
  | .nil => rfl
  | .cons operator operand more => by
    rw [Tail.node, more.height_node, Node.height_pair, operand.height_node, Tail.height]

end

mutual

theorem Phrase.fits_node_iff {bound next : Nat} {part : Option Level} :
    ∀ p : Phrase part, (p.node next).Fits bound ↔ p.Within bound
  | .atom a => iff_of_true (a.fits_node next bound) trivial
  | .paren inner => inner.fits_node_iff
  | .chain first more => by
    rw [Phrase.node, more.fits_node_iff, first.fits_node_iff, first.height_node, Phrase.Within]

theorem Tail.fits_node_iff {bound next : Nat} {left : Node} {level : Level} :
    ∀ m : Tail level,
      (m.node next left).Fits bound ↔ left.Fits bound ∧ m.Within bound left.height
  | .nil => (and_iff_left trivial).symm
  | .cons operator operand more => by
    rw [Tail.node, more.fits_node_iff, Node.fits_pair, Node.height_pair, operand.fits_node_iff,
      operand.height_node, Tail.Within]
    constructor
    · rintro ⟨⟨hp, hl, ho⟩, hm⟩
      exact ⟨hl, ho, hp, hm⟩
    · rintro ⟨hl, ho, hp, hm⟩
      exact ⟨⟨hp, hl, ho⟩, hm⟩

end

namespace Statement

/-- The height of the tree of a statement. -/
def height : Statement → Nat
  | expression e => e.height
  | assign _ e => 1 + max 1 e.height

theorem height_nodeFrom (next : Nat) (s : Statement) : (s.nodeFrom next).height = s.height := by
  cases s with
  | expression e => exact e.height_node next
  | assign text e =>
    rw [nodeFrom, Node.height_pair, e.height_node, height]
    rfl

/-- No pair in the tree of a statement is taller than the bound. -/
def Within (bound : Nat) : Statement → Prop
  | expression e => e.Within bound
  | assign _ e => e.Within bound ∧ 1 + max 1 e.height ≤ bound

theorem fits_node_iff {bound : Nat} (s : Statement) : s.node.Fits bound ↔ s.Within bound := by
  cases s with
  | expression e => exact e.fits_node_iff
  | assign text e =>
    rw [node, Node.fits_pair, e.fits_node_iff, e.height_node, Within]
    constructor
    · rintro ⟨hp, -, he⟩
      exact ⟨he, hp⟩
    · rintro ⟨he, hp⟩
      exact ⟨hp, Node.fits_leaf _ _, he⟩

end Statement

end Arbor
