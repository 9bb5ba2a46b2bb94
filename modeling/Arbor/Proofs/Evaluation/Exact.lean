import Arbor.Proofs.Evaluation.Expression
import Arbor.Proofs.Node.Postorder
import Arbor.Proofs.Session.Program

/-!
# Exact evaluation

Over the unbounded integers, every tree of a statement can be computed up to divisions by zero and
operands of the wrong types (`ParseTree.exactValue?`). An evaluation that keeps to 64-bit integers
differs from this in one thing, that results can be too large. So a node *fails* if its operands
have exact values, but these are not two integers, or the divisor is zero, or the exact result does
not fit 64 bits (`ParseTree.failure?`).

An evaluation has the exact value of the tree if no node fails, and else it has the error of the
node that fails first in post-order (`Session.evaluate_exact`). In particular nothing ever wraps.
This is said of one operator first (`Evaluation.operate_exact`), and carried through expressions
(`Node.IsExpression.eval_exact`) and statements (`Node.IsStatement.eval_exact`).
-/

namespace Arbor

/-- An operator that takes two integers. -/
def Kind.isArithmetic : Kind → Bool
  | add | subtract | multiply | divide => true
  | _ => false

/-- A value with an unbounded integer. -/
inductive Exact
  | nil
  | int (value : Int)
  | bool (value : Bool)
  deriving DecidableEq

namespace Exact

/-- The same value, with its integer unbounded. -/
def ofValue : Value → Exact
  | .nil => nil
  | .int value => int value.toInt
  | .bool value => bool value

/-- The name of the type of a value. -/
def typeName : Exact → String
  | nil => "nil"
  | int _ => "int"
  | bool _ => "bool"

/-- The result of an operator, if it has one. Quotients are rounded toward zero, and values of
    different types are not equal. -/
def operate? : Kind → Exact → Exact → Option Exact
  | .compare, a, b => some (bool (a = b))
  | .inverseCompare, a, b => some (bool (a ≠ b))
  | .add, int a, int b => some (int (a + b))
  | .subtract, int a, int b => some (int (a - b))
  | .multiply, int a, int b => some (int (a * b))
  | .divide, int a, int b => if b = 0 then none else some (int (a.tdiv b))
  | _, _, _ => none

/-- Why an operator fails on two values, if it does. -/
def failure? (kind : Kind) (a b : Exact) : Option EvalError :=
  if kind.isArithmetic then
    match a, b with
    | int _, int divisor =>
      if kind = .divide ∧ divisor = 0 then some .divisionByZero
      else
        match operate? kind a b with
        | some (int c) =>
          if Int64.minValue.toInt ≤ c ∧ c ≤ Int64.maxValue.toInt then none
          else some (.overflow kind)
        | _ => none
    | _, _ => some (.typeMismatch kind a.typeName b.typeName)
  else none

end Exact

namespace ParseTree

/-- The value of a node over the unbounded integers, if every operator has a result. A name that is
    not bound stands for nil, and an assignment has the value of its right side. -/
def exactValue? (tree : ParseTree) (names : Namespace) : Node → Option Exact
  | .mk .number value _ => some (.int value.toInt)
  | .mk .boolean value _ => some (.bool (value ≠ 0))
  | .mk .nil _ _ => some .nil
  | .mk .symbol value children =>
    (tree.symbolText? (.mk .symbol value children)).map fun name =>
      .ofValue ((names.get? name).getD .nil)
  | .mk .assign _ [_, source] => tree.exactValue? names source
  | .mk kind _ [left, right] => do
    Exact.operate? kind (← tree.exactValue? names left) (← tree.exactValue? names right)
  | _ => none

/-- Why a node fails, if its operands have values and it does. -/
def failure? (tree : ParseTree) (names : Namespace) (node : Node) : Option EvalError :=
  match node.children.map (tree.exactValue? names) with
  | [some a, some b] => Exact.failure? node.kind a b
  | _ => none

end ParseTree

/-- An answer is accounted for: an error is that of the failure, and a value is the exact one if
    there is no failure. -/
def Exact.Accounts (answer : Except EvalError Value) (failure : Option EvalError)
    (exact : Option Exact) : Prop :=
  match answer with
  | .error e => failure = some e
  | .ok value => failure = none ∧ exact = some (.ofValue value)

/-! ### One operator -/

/-- An integer that fits 64 bits is that of a 64-bit integer, and no other is. -/
theorem Integer.ofInt?_cases (n : Int) :
    (∃ w, ofInt? n = some w ∧ w.toInt = n ∧
        Int64.minValue.toInt ≤ n ∧ n ≤ Int64.maxValue.toInt) ∨
      (ofInt? n = none ∧ ¬(Int64.minValue.toInt ≤ n ∧ n ≤ Int64.maxValue.toInt)) := by
  cases h : ofInt? n with
  | some w =>
    obtain rfl : w.toInt = n := ofInt?_eq_some_iff.1 h
    exact .inl ⟨w, rfl, rfl, w.minValue_le_toInt, w.toInt_le⟩
  | none =>
    refine .inr ⟨rfl, fun ⟨hmin, hmax⟩ => ?_⟩
    have hsome : ofInt? n = some (Int64.ofInt n) :=
      ofInt?_eq_some_iff.2 (Int64.toInt_ofInt_of_le hmin (Int.lt_add_one_of_le hmax))
    cases h.symm.trans hsome

theorem Exact.ofValue_inj {a b : Value} : ofValue a = ofValue b ↔ a = b := by
  cases a <;> cases b <;> simp [ofValue, Int64.toInt_inj]

namespace Evaluation

open Exact

/-- Arithmetic is exact where it computes an unbounded integer and takes what fits. -/
theorem arithmetic_of_ofInt? {kind : Kind} {x y : Int64} {n : Int} (hk : kind.isArithmetic = true)
    (hy : ¬(kind = .divide ∧ y = 0)) (hr : result? kind x y = Integer.ofInt? n)
    (hn : operate? kind (.int x.toInt) (.int y.toInt) = some (.int n)) :
    Accounts (arithmetic kind x y) (failure? kind (.int x.toInt) (.int y.toInt))
      (operate? kind (.int x.toInt) (.int y.toInt)) := by
  have hy' : ¬(kind = .divide ∧ y.toInt = 0) := by rwa [← Int64.toInt_zero, Int64.toInt_inj]
  rw [arithmetic, if_neg hy, hr, failure?, if_pos hk]
  simp only [if_neg hy', hn]
  rcases Integer.ofInt?_cases n with ⟨w, hw, rfl, hfits⟩ | ⟨hw, hfits⟩
  · rw [hw, if_pos hfits]
    exact ⟨rfl, rfl⟩
  · rw [hw, if_neg hfits]
    rfl

/-- Arithmetic on integers is exact, or reports a zero divisor or an overflow. -/
theorem arithmetic_exact {kind : Kind} (hk : kind.isArithmetic = true) (x y : Int64) :
    Accounts (arithmetic kind x y) (failure? kind (.int x.toInt) (.int y.toInt))
      (operate? kind (.int x.toInt) (.int y.toInt)) := by
  cases kind with
  | add | subtract | multiply => exact arithmetic_of_ofInt? hk nofun rfl rfl
  | divide =>
    by_cases hy : y = 0
    · subst hy
      exact rfl
    · have hy' : ¬y.toInt = 0 := by rwa [← Int64.toInt_zero, Int64.toInt_inj]
      exact arithmetic_of_ofInt? hk (fun h => hy h.2) (if_neg hy) (if_neg hy')
  | _ => cases hk

/-- An operator on values is exact, or reports why it fails. -/
theorem operate_exact {level : Level} (operator : Operator level) (a b : Value) :
    Accounts (operate operator.kind a b) (failure? operator.kind (ofValue a) (ofValue b))
      (operate? operator.kind (ofValue a) (ofValue b)) := by
  have hsame : decide (ofValue a = ofValue b) = decide (a = b) := decide_eq_decide.2 ofValue_inj
  have hother : decide (ofValue a ≠ ofValue b) = decide (a ≠ b) :=
    decide_eq_decide.2 (not_congr ofValue_inj)
  cases operator with
  | equals => exact ⟨rfl, congrArg (some ∘ Exact.bool) hsame⟩
  | notEquals => exact ⟨rfl, congrArg (some ∘ Exact.bool) hother⟩
  | _ =>
    -- The operands are two integers, or their types are not those of two.
    rcases a with _ | x | _ <;> rcases b with _ | y | _
    all_goals first | exact rfl | exact arithmetic_exact rfl x y

end Evaluation

/-! ### Expressions -/

variable {tree : ParseTree} {root left right : Node} {level : Level} {names : Namespace}

namespace ParseTree

/-- The failures of a pair are those of its operands, the left one first, and then its own. -/
theorem findSome?_postorder_pair (kind : Kind) (left right : Node) :
    (Node.branch kind [left, right]).postorder.findSome? (tree.failure? names) =
      ((left.postorder.findSome? (tree.failure? names)).or
        (right.postorder.findSome? (tree.failure? names))).or
          (tree.failure? names (.branch kind [left, right])) := by
  rw [Node.postorder_eq, List.findSome?_append, List.findSome?_singleton, Node.branch,
    Node.children, Node.postorders, Node.postorders_singleton, List.findSome?_append]

theorem exactValue?_pair (operator : Operator level) (left right : Node) :
    tree.exactValue? names (.branch operator.kind [left, right]) = (do
      Exact.operate? operator.kind (← tree.exactValue? names left)
        (← tree.exactValue? names right)) := by
  cases operator <;> rfl

/-- Nothing but arithmetic fails. -/
theorem failure?_of_not_isArithmetic {node : Node} (h : ¬node.kind.isArithmetic = true) :
    tree.failure? names node = none := by
  unfold failure?
  split
  · exact if_neg h
  · rfl

theorem failure?_pair {kind : Kind} {a b : Exact} (hl : tree.exactValue? names left = some a)
    (hr : tree.exactValue? names right = some b) :
    tree.failure? names (.branch kind [left, right]) = Exact.failure? kind a b := by
  change (match [tree.exactValue? names left, tree.exactValue? names right] with
    | [some a, some b] => Exact.failure? kind a b
    | _ => none) = _
  rw [hl, hr]

end ParseTree

namespace Node

open ParseTree Exact

/-- The value of an expression is exact, or its error is that of the first failure in post-order. -/
theorem IsExpression.eval_exact (h : root.IsExpression) (hs : tree.Resolves root)
    (names : Namespace) :
    Accounts (tree.eval root names).1 (root.postorder.findSome? (tree.failure? names))
      (tree.exactValue? names root) := by
  induction h with
  | symbol value =>
    obtain ⟨name, hname⟩ := hs value (List.mem_singleton_self _)
    have hexact : tree.exactValue? names (leaf .symbol value) =
        some (ofValue ((names.get? name).getD .nil)) := congrArg (Option.map _) hname
    have heval : tree.resolve (leaf .symbol value) names = .ok ((names.get? name).getD .nil) := by
      rw [resolve, symbolText_leaf, hname]
    change Accounts (tree.resolve (leaf .symbol value) names) _ _
    rw [heval]
    exact ⟨rfl, hexact⟩
  | @pair level operator left right hl hr ihl ihr =>
    obtain ⟨hsl, hsr⟩ := (resolves_pair operator.kind_ne_symbol).1 hs
    rw [eval_pair operator hl hr, findSome?_postorder_pair, exactValue?_pair]
    have hleft := ihl hsl
    generalize (tree.eval left names).1 = answer at hleft ⊢
    rcases answer with e | a
    · rw [show left.postorder.findSome? (tree.failure? names) = some e from hleft]
      rfl
    obtain ⟨hfl, hel⟩ := hleft
    have hright := ihr hsr
    generalize (tree.eval right names).1 = answer at hright ⊢
    rcases answer with e | b
    · rw [hfl, show right.postorder.findSome? (tree.failure? names) = some e from hright]
      rfl
    obtain ⟨hfr, her⟩ := hright
    rw [hfl, hfr, failure?_pair hel her, hel, her]
    exact Evaluation.operate_exact operator a b
  | number | nil => exact ⟨rfl, rfl⟩
  | boolean value => cases value <;> exact ⟨rfl, rfl⟩

/-- The value of a statement is exact, or its error is that of the first failure in post-order. -/
theorem IsStatement.eval_exact (h : root.IsStatement) (hs : tree.Resolves root)
    (names : Namespace) :
    Accounts (tree.eval root names).1 (root.postorder.findSome? (tree.failure? names))
      (tree.exactValue? names root) := by
  rcases h with he | ⟨target, hsource⟩
  · exact he.eval_exact hs names
  · next source =>
    have hk : Kind.assign ≠ .symbol := nofun
    obtain ⟨hst, hss⟩ := (resolves_pair hk).1 hs
    obtain ⟨name, hname⟩ := hst.exists_symbolText (mem_preorder_self _) rfl
    have hsource' := hsource.eval_exact hss names
    have htarget : (leaf .symbol target).postorder.findSome? (tree.failure? names) = none := rfl
    have hassign : tree.failure? names (.branch .assign [leaf .symbol target, source]) = none :=
      failure?_of_not_isArithmetic nofun
    rw [eval_assign target hsource, findSome?_postorder_pair, htarget, hassign, Option.none_or,
      Option.or_none]
    generalize (tree.eval source names).1 = answer at hsource' ⊢
    rcases answer with e | value
    · exact hsource'
    · dsimp only
      rw [ParseTree.bind, hname]
      exact hsource'

end Node

/-! ### Trees that sessions give -/

/-- What accounts for an answer tells which one it is. -/
theorem Exact.Accounts.eq_iff {answer : Except EvalError Value} {failure : Option EvalError}
    {exact : Option Exact} (h : Accounts answer failure exact) :
    (∀ e, answer = .error e ↔ failure = some e) ∧
      ∀ value, answer = .ok value ↔ failure = none ∧ exact = some (.ofValue value) := by
  rcases answer with e | value
  · obtain rfl : failure = some e := h
    exact ⟨fun e' => by simp, fun value => by simp⟩
  · obtain ⟨rfl, rfl⟩ := h
    exact ⟨fun e => by simp, fun value' => by simp [Exact.ofValue_inj]⟩

namespace Session

variable {limits : Limits} {uses : List Use} {b : Bounds} {source : ByteArray} {tree : ParseTree}

/-- Evaluation is exact, or reports why it is not. A tree that the grammar gives evaluates to a
    value if and only if none of its nodes fails, and this is then its value over the unbounded
    integers. If some node fails, the error is that of the first in post-order.

    The names of a tree are numbered by 64-bit integers, so there must not be more of them. -/
theorem evaluate_exact
    (h : (((new limits).after uses).parse (.ofGrammar b) source).result = .ok tree)
    (hsize : tree.symbols.size ≤ Integer.largest) (names : Namespace) :
    (∀ e, (tree.evaluate names).1 = .error e ↔
        tree.root.postorder.findSome? (tree.failure? names) = some e) ∧
      ∀ value, (tree.evaluate names).1 = .ok value ↔
        (∀ node ∈ tree.root.postorder, tree.failure? names node = none) ∧
          tree.exactValue? names tree.root = some (.ofValue value) := by
  obtain ⟨p, hp, capacity, rfl⟩ := exists_program_of_ok h
  have hnode := p.isWellFormed_node hp.isWord
  have hresolves : (p.tree capacity).Resolves p.node := hnode.resolves hsize capacity
  obtain ⟨herror, hvalue⟩ := (hnode.statement.eval_exact hresolves names).eq_iff
  refine ⟨herror, fun value => ?_⟩
  rw [← List.findSome?_eq_none_iff]
  exact hvalue value

/-- The quotient of the smallest integer by `-1` is what fails first, and not the division by zero
    to the right of it. -/
theorem evaluate_exact_smallest :
    let minusOne : Node := .branch .subtract [.leaf .number 0, .leaf .number 1]
    let smallest : Node := .branch .subtract
      [.branch .subtract [.leaf .number 0, .leaf .number 9223372036854775807], .leaf .number 1]
    let tree : ParseTree := ⟨.branch .compare
      [.branch .divide [smallest, minusOne],
        .branch .divide [.leaf .number 1, .leaf .number 0]], #[], some 1024⟩
    ((new {}).parse (.ofGrammar {})
        "(0 - 9223372036854775807 - 1) / (0 - 1) == 1 / 0".toUTF8).result = .ok tree ∧
      tree.symbols.size ≤ Integer.largest ∧ (tree.evaluate {}).1 = .error (.overflow .divide) ∧
        tree.root.postorder.findSome? (tree.failure? {}) = some (.overflow .divide) := by
  intro minusOne smallest tree
  have hscript : Script.ofSource {} "(0 - 9223372036854775807 - 1) / (0 - 1) == 1 / 0".toUTF8 =
      [.pushNumber 0, .pushNumber 9223372036854775807, .reduce .subtract 2, .pushNumber 1,
        .reduce .subtract 2, .pushNumber 0, .pushNumber 1, .reduce .subtract 2, .reduce .divide 2,
        .pushNumber 1, .pushNumber 0, .reduce .divide 2, .reduce .compare 2] := by
    decide +kernel
  have hresult : ((new {}).parse (.ofGrammar {})
      "(0 - 9223372036854775807 - 1) / (0 - 1) == 1 / 0".toUTF8).result = .ok tree := by
    refine (exists_run_ofGrammar {} [] {} _).1.trans ?_
    rw [hscript]
    rfl
  have hsize : tree.symbols.size ≤ Integer.largest := Nat.zero_le _
  have herror : (tree.evaluate {}).1 = .error (.overflow .divide) := by decide +kernel
  exact ⟨hresult, hsize, herror,
    ((@evaluate_exact {} [] _ _ _ hresult hsize {}).1 _).1 herror⟩

end Session

end Arbor
