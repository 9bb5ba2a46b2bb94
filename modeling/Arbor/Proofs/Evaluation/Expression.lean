import Arbor.Evaluation
import Arbor.Proofs.Grammar.Shape
import Arbor.Proofs.Node.Walk

/-!
# Evaluating the trees of statements

Trees made by hand can bind names anywhere, and keep what they have bound when they fail. The
trees of statements cannot. An expression binds nothing (`Node.IsExpression.eval_names`), so
that its value is put together from those of its operands (`ParseTree.eval_pair`), and an
assignment binds its name as the last thing it does (`ParseTree.eval_assign`). And an expression
reads no names but those of its table (`Node.IsExpression.eval_congr`).

Neither can the evaluation of a statement come upon a node it does not know what to do with.
If the symbols have names, then every error is about values (`Node.IsStatement.isOrdinary`).
-/

namespace Arbor

namespace EvalError

/-- An error about values, and not about how the tree is made. -/
def IsOrdinary : EvalError → Prop
  | typeMismatch .. | divisionByZero | overflow _ => True
  | malformed .. | unresolved _ => False

end EvalError

namespace Evaluation

/-- An operator on values has a value or an error about them. -/
theorem isOrdinary_of_operate {kind : Kind} {a b : Value} {e : EvalError}
    (h : operate kind a b = .error e) : e.IsOrdinary := by
  unfold operate at h
  split at h
  · cases h
  · cases h
  · next x y _ _ =>
    unfold arithmetic at h
    split at h
    · cases h
      trivial
    · split at h <;> cases h
      trivial
  · cases h
    trivial

end Evaluation

/-! ### Expressions -/

variable {tree : ParseTree} {root left right : Node} {level : Level} {names : Namespace}

namespace ParseTree

/-- An operator is applied to the values of its operands, of which the left comes first. -/
theorem eval_branch (operator : Operator level) (left right : Node) (names : Namespace) :
    tree.eval (.branch operator.kind [left, right]) names =
      match tree.eval left names with
      | (.ok a, names) =>
        match tree.eval right names with
        | (.ok b, names) => (Evaluation.operate operator.kind a b, names)
        | failed => failed
      | failed => failed := by
  cases operator <;> rfl

end ParseTree

/-- An expression binds no name. -/
theorem Node.IsExpression.eval_names (h : root.IsExpression) : (tree.eval root names).2 = names := by
  induction h with
  | pair operator hl hr ihl ihr =>
    rw [ParseTree.eval_branch]
    split
    · next a bound ha =>
      -- The left operand has left the names as they were, so the right one starts from them.
      obtain rfl : bound = names := (congrArg Prod.snd ha).symm.trans ihl
      split
      · next b bound hb => exact (congrArg Prod.snd hb).symm.trans ihr
      · exact ihr
    · exact ihl
  | _ => rfl

theorem Node.IsExpression.eval_eq (h : root.IsExpression) :
    tree.eval root names = ((tree.eval root names).1, names) :=
  Prod.ext rfl h.eval_names

namespace ParseTree

/-- The value of a pair, put together from the values of its operands. -/
theorem eval_pair (operator : Operator level) (hl : left.IsExpression) (hr : right.IsExpression) :
    tree.eval (.branch operator.kind [left, right]) names =
      (do Evaluation.operate operator.kind (← (tree.eval left names).1) (← (tree.eval right names).1),
        names) := by
  rw [eval_branch, hl.eval_eq]
  rcases (tree.eval left names).1 with e | a
  · rfl
  · dsimp only
    rw [hr.eval_eq]
    rcases (tree.eval right names).1 with e | b <;> rfl

/-- An assignment has the value of the expression on its right, and binds the name on its left
    to it, if there is one. -/
theorem eval_assign (target : Int64) {source : Node} (h : source.IsExpression) :
    tree.eval (.branch .assign [.leaf .symbol target, source]) names =
      match (tree.eval source names).1 with
      | .ok value => tree.bind (.leaf .symbol target) value names
      | .error e => (.error e, names) := by
  change (match tree.eval source names with
    | (.ok value, names) => tree.bind (.leaf .symbol target) value names
    | failed => failed) = _
  rw [h.eval_eq]
  rcases (tree.eval source names).1 with e | a <;> rfl

end ParseTree

/-! ### What an expression reads -/

/-- The names have the same values in both namespaces. -/
def Namespace.AgreeOn (texts : List String) (m n : Namespace) : Prop :=
  ∀ name ∈ texts, m.get? name = n.get? name

section

variable {m n : Namespace}

namespace ParseTree

/-- The text of a symbol is one that the table holds. -/
theorem mem_of_symbolText {node : Node} {name : String} (h : tree.symbolText node = .ok name) :
    name ∈ tree.symbols.entries.toList := by
  unfold symbolText at h
  split at h
  · next hk =>
    rw [symbolText?, if_pos hk] at h
    cases hl : tree.symbols.lookupValue node.value with
    | none => rw [hl] at h; cases h
    | some text =>
      rw [hl] at h
      cases h
      obtain ⟨index, -, hi⟩ := Option.bind_eq_some_iff.1 hl
      exact Array.mem_toList_iff.2 (Array.mem_of_getElem? hi)
  · cases h

/-- A symbol stands for the same value where the names of the table have the same values. -/
theorem resolve_congr (h : Namespace.AgreeOn tree.symbols.entries.toList m n) (node : Node) :
    tree.resolve node m = tree.resolve node n := by
  unfold resolve
  cases hname : tree.symbolText node with
  | error fault => rfl
  | ok name => simp only [h name (mem_of_symbolText hname)]

end ParseTree

/-- An expression has the same value where the names of the table have the same values. -/
theorem Node.IsExpression.eval_congr (he : root.IsExpression)
    (h : Namespace.AgreeOn tree.symbols.entries.toList m n) :
    (tree.eval root m).1 = (tree.eval root n).1 := by
  induction he with
  | symbol value => exact ParseTree.resolve_congr h _
  | pair operator hl hr ihl ihr =>
    rw [ParseTree.eval_pair operator hl hr, ParseTree.eval_pair operator hl hr, ihl, ihr]
  | _ => rfl

end

/-! ### Symbols -/

namespace ParseTree

/-- Every symbol of the node has a name in the table. -/
def Resolves (tree : ParseTree) (root : Node) : Prop :=
  ∀ value ∈ root.symbols, ∃ name, tree.symbols.lookupValue value = some name

theorem symbolText_leaf (tree : ParseTree) (index : Int64) :
    tree.symbolText (.leaf .symbol index) =
      match tree.symbols.lookupValue index with
      | some text => .ok text
      | none => .error (.notInterned index tree.symbols.size) := rfl

/-- Below a node whose symbols have names, the text of every symbol is found. -/
theorem Resolves.exists_symbolText (h : tree.Resolves root) {node : Node} (hn : node ∈ root.preorder)
    (hk : node.kind = .symbol) : ∃ name, tree.symbolText node = .ok name := by
  have hsymbols : node.value ∈ root.symbols :=
    List.mem_map_of_mem (List.mem_filter.2 ⟨hn, decide_eq_true hk⟩)
  obtain ⟨name, hname⟩ := h _ hsymbols
  refine ⟨name, ?_⟩
  rw [symbolText, if_pos hk, symbolText?, if_pos hk, hname]

theorem resolves_pair {kind : Kind} (hk : kind ≠ .symbol) :
    tree.Resolves (.branch kind [left, right]) ↔ tree.Resolves left ∧ tree.Resolves right := by
  rw [Resolves, Node.symbols_pair hk]
  exact List.forall_mem_append

end ParseTree

/-- A table finds the text of every index that a 64-bit integer can stand for. -/
theorem SymbolTable.lookupValue_ofNat (table : SymbolTable) {index : Nat}
    (h : index ≤ Integer.largest) : table.lookupValue (Int64.ofNat index) = table.lookup index := by
  have hlt : index < 2 ^ 63 := Nat.lt_succ_of_le h
  rw [lookupValue, Integer.index?, Int64.toInt_ofNat_of_lt hlt, if_pos (Int.natCast_nonneg index)]
  rfl

/-- A table of the names of a tree has a name for each of its symbols, if the names can be
    numbered by 64-bit integers. -/
theorem Node.IsWellFormed.resolves {texts : List String} (h : root.IsWellFormed texts)
    (hsize : texts.length ≤ Integer.largest) (capacity : Option Nat) :
    (⟨root, texts.toArray, capacity⟩ : ParseTree).Resolves root := by
  intro value hvalue
  rw [h.symbols] at hvalue
  obtain ⟨index, hindex, rfl⟩ := List.mem_map.1 hvalue
  rw [List.mem_range'_1, Nat.zero_add] at hindex
  refine ⟨texts.get ⟨index, hindex.2⟩, ?_⟩
  rw [SymbolTable.lookupValue_ofNat _ (Nat.le_trans (Nat.le_of_lt hindex.2) hsize)]
  simp [SymbolTable.lookup, hindex.2]

/-! ### Errors -/

namespace Node

/-- An expression whose symbols have names has a value, or an error about values. -/
theorem IsExpression.isOrdinary (h : root.IsExpression) (hs : tree.Resolves root) {e : EvalError}
    (he : (tree.eval root names).1 = .error e) : e.IsOrdinary := by
  induction h with
  | symbol value =>
    obtain ⟨name, hname⟩ := hs.exists_symbolText (mem_preorder_self _) rfl
    have hresolve : tree.resolve (leaf .symbol value) names = .ok ((names.get? name).getD .nil) := by
      rw [ParseTree.resolve, hname]
    exact absurd (hresolve.symm.trans he) nofun
  | @pair level operator left right hl hr ihl ihr =>
    obtain ⟨hsl, hsr⟩ := (ParseTree.resolves_pair operator.kind_ne_symbol).1 hs
    rw [ParseTree.eval_pair operator hl hr] at he
    rcases hleft : (tree.eval left names).1 with e' | a <;> rw [hleft] at he
    · cases he
      exact ihl hsl hleft
    · rcases hright : (tree.eval right names).1 with e' | b <;> rw [hright] at he
      · cases he
        exact ihr hsr hright
      · exact Evaluation.isOrdinary_of_operate he
  | _ => cases he

/-- A statement whose symbols have names has a value, or an error about values. -/
theorem IsStatement.isOrdinary (h : root.IsStatement) (hs : tree.Resolves root) {e : EvalError}
    (he : (tree.eval root names).1 = .error e) : e.IsOrdinary := by
  rcases h with he' | ⟨target, hsource⟩
  · exact he'.isOrdinary hs he
  · next source =>
    have hk : Kind.assign ≠ .symbol := nofun
    obtain ⟨hst, hss⟩ := (ParseTree.resolves_pair hk).1 hs
    obtain ⟨name, hname⟩ := hst.exists_symbolText (mem_preorder_self _) rfl
    rw [ParseTree.eval_assign target hsource] at he
    rcases hvalue : (tree.eval source names).1 with e' | a <;> rw [hvalue] at he
    · cases he
      exact hsource.isOrdinary hss hvalue
    · dsimp only at he
      rw [ParseTree.bind, hname] at he
      cases he

end Node

end Arbor
