import Arbor.Proofs.Grammar.Tree
import Arbor.Proofs.Token.Word

/-!
# The shape of the trees of programs

The tree of an expression has literals and symbols for leaves and an operator with two
operands at every other node (`Node.IsExpression`). That of a statement may have an
assignment to a symbol at its root, and nowhere else (`Node.IsStatement`). In the tree of a
program that can be written down, moreover, the symbols are numbered from left to right, and
stand for names (`Program.isWellFormed_node`).
-/

namespace Arbor

namespace Node

/-- The trees of expressions. -/
inductive IsExpression : Node → Prop
  | number {value : Int64} (h : 0 ≤ value) : IsExpression (leaf .number value)
  | boolean (value : Bool) : IsExpression (leaf .boolean (if value then 1 else 0))
  | nil : IsExpression nil
  | symbol (value : Int64) : IsExpression (leaf .symbol value)
  | pair {level : Level} (operator : Operator level) {left right : Node} (hl : IsExpression left)
      (hr : IsExpression right) : IsExpression (branch operator.kind [left, right])

/-- The trees of statements. -/
inductive IsStatement : Node → Prop
  | expression {root : Node} (h : root.IsExpression) : IsStatement root
  | assign (target : Int64) {source : Node} (h : source.IsExpression) :
      IsStatement (branch .assign [leaf .symbol target, source])

/-- The trees of statements whose symbols are numbered from left to right and stand for
    `names`. -/
structure IsWellFormed (root : Node) (names : List String) : Prop where
  statement : root.IsStatement
  symbols : root.symbols = numbers 0 names.length
  names : ∀ name ∈ names, Token.IsName name

end Node

/-! ### The trees of programs -/

theorem Atom.isExpression_node {a : Atom} (h : a.token.IsWord) (next : Nat) :
    (a.node next).IsExpression := by
  cases a with
  | number value =>
    have hlt : value < 2 ^ 63 := Nat.lt_succ_of_le h
    refine .number (Int64.le_iff_toInt_le.2 ?_)
    rw [Int64.toInt_ofNat_of_lt hlt]
    exact Int.natCast_nonneg value
  | boolean value => exact .boolean value
  | nil => exact .nil
  | name text => exact .symbol _

mutual

theorem Phrase.isExpression_node (next : Nat) {part : Option Level} :
    ∀ p : Phrase part, (∀ t ∈ p.tokens, t.IsWord) → (p.node next).IsExpression
  | .atom a, h => Atom.isExpression_node (h _ (List.mem_singleton_self _)) next
  | .paren inner, h => by
    rw [Phrase.tokens, List.forall_mem_cons, List.forall_mem_append] at h
    exact inner.isExpression_node next h.2.1
  | .chain first more, h => by
    rw [Phrase.tokens, List.forall_mem_append] at h
    exact more.isExpression_node _ (first.isExpression_node next h.1) h.2

theorem Tail.isExpression_node (next : Nat) {left : Node} (hl : left.IsExpression) {level : Level} :
    ∀ m : Tail level, (∀ t ∈ m.tokens, t.IsWord) → (m.node next left).IsExpression
  | .nil, _ => hl
  | .cons operator operand more, h => by
    rw [Tail.tokens, List.forall_mem_cons, List.forall_mem_append] at h
    obtain ⟨-, ho, hm⟩ := h
    exact more.isExpression_node _ (.pair operator hl (operand.isExpression_node next ho)) hm

end

theorem Statement.isStatement_node (s : Statement) (h : ∀ t ∈ s.tokens, t.IsWord) :
    s.node.IsStatement := by
  cases s with
  | expression e => exact .expression (e.isExpression_node 0 h)
  | assign text e =>
    rw [Statement.tokens, List.forall_mem_cons, List.forall_mem_cons] at h
    exact .assign 0 (e.isExpression_node 1 h.2.2)

theorem Program.isWord_of_mem_statement {p : Program} (h : ∀ t ∈ p.tokens, t.IsWord) :
    ∀ t ∈ p.statement.tokens, t.IsWord := fun t ht =>
  h t (List.mem_append_right _ (List.mem_append_left _ ht))

/-- The tree of a program is well-formed if its tokens are words. -/
theorem Program.isWellFormed_node (p : Program) (h : ∀ t ∈ p.tokens, t.IsWord) :
    p.node.IsWellFormed p.names where
  statement := p.statement.isStatement_node (isWord_of_mem_statement h)
  symbols := p.symbols_node
  names name hname := by
    obtain ⟨t, ht, hn⟩ := List.mem_filterMap.1 hname
    have hw := h t ht
    cases t with
    | ident text =>
      cases hn
      exact hw
    | _ => cases hn

end Arbor
