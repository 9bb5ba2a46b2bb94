import Arbor.Evaluation
import Arbor.Proofs.Node.Postorder

/-!
# Operands

The *operands* of a node are the nodes whose values it asks for: both children of an operator, and
the right one of an assignment. Whatever the tree is, evaluating a node is the same three steps
(`ParseTree.eval_eq`). A node that makes no sense is an error at once; else the operands are
evaluated one after the other (`ParseTree.evalAll`), and what is done with their values comes last
(`ParseTree.complete`). Of the names, only this last step changes any, and only for an assignment
(`ParseTree.complete_cases`).

So what holds of all trees is shown by induction on the operands (`Node.operands_induction`).
-/

namespace Arbor

namespace Node

/-- The nodes whose values a node asks for, in order. -/
def operands : Node → List Node
  | mk .assign _ [_, source] => [source]
  | mk kind _ [left, right] => if kind.isLeaf then [] else [left, right]
  | _ => []

/-- The node has other than two children although it is no leaf, or it assigns to other than a
    symbol. -/
def isMalformed : Node → Bool
  | mk .assign _ [target, _] => target.kind ≠ .symbol
  | mk _ _ [_, _] => false
  | mk kind _ _ => !kind.isLeaf

/-- What holds of a node if it holds of its children holds of all nodes. -/
theorem children_induction {P : Node → Prop}
    (h : ∀ node : Node, (∀ child ∈ node.children, P child) → P node) (node : Node) : P node :=
  @Node.rec P (fun nodes => ∀ child ∈ nodes, P child)
    (fun kind value children hchildren => h (mk kind value children) hchildren)
    (List.forall_mem_nil P) (fun _ _ hnode hnodes => List.forall_mem_cons.2 ⟨hnode, hnodes⟩) node

theorem operands_sublist (node : Node) : node.operands.Sublist node.children := by
  unfold operands
  split
  · exact List.sublist_cons_self _ _
  · split
    · exact List.nil_sublist _
    · exact List.Sublist.refl _
  · exact List.nil_sublist _

/-- What holds of a node if it holds of its operands holds of all nodes. -/
theorem operands_induction {P : Node → Prop}
    (h : ∀ node : Node, (∀ operand ∈ node.operands, P operand) → P node) (node : Node) : P node :=
  children_induction
    (fun node hchildren => h node fun _ ho => hchildren _ (node.operands_sublist.subset ho)) node

end Node

namespace ParseTree

/-- Evaluates nodes one after the other, up to the first that has no value. -/
def evalAll (tree : ParseTree) : List Node → Namespace → Except EvalError (List Value) × Namespace
  | [], names => (.ok [], names)
  | node :: nodes, names =>
    match tree.eval node names with
    | (.ok value, names) =>
      match tree.evalAll nodes names with
      | (.ok values, names) => (.ok (value :: values), names)
      | failed => failed
    | (.error e, names) => (.error e, names)

/-- What is done with the values of the operands. -/
def complete (tree : ParseTree) : Node → List Value → Namespace → Except EvalError Value × Namespace
  | .mk .number value _, _, names => (.ok (.int value), names)
  | .mk .boolean value _, _, names => (.ok (.bool (value ≠ 0)), names)
  | .mk .nil _ _, _, names => (.ok .nil, names)
  | .mk .symbol value children, _, names => (tree.resolve (.mk .symbol value children) names, names)
  | .mk .assign _ [target, _], [value], names => tree.bind target value names
  | .mk .assign _ children, _, names => (.error (.malformed .assign children.length), names)
  | .mk kind _ _, [a, b], names => (Evaluation.operate kind a b, names)
  | .mk kind _ children, _, names => (.error (.malformed kind children.length), names)

/-- A node is evaluated operands first. -/
theorem eval_eq (tree : ParseTree) (node : Node) (names : Namespace) :
    tree.eval node names =
      if node.isMalformed then (.error (.malformed node.kind node.childCount), names)
      else
        match tree.evalAll node.operands names with
        | (.ok values, names) => tree.complete node values names
        | (.error e, names) => (.error e, names) := by
  obtain ⟨kind, value, children⟩ := node
  rcases children with _ | ⟨left, _ | ⟨right, _ | ⟨third, more⟩⟩⟩
  · cases kind <;> rfl
  · cases kind <;> rfl
  · cases kind with
    | number | boolean | symbol | nil => rfl
    | assign =>
      simp only [eval, Node.isMalformed, Node.operands, evalAll]
      by_cases hk : left.kind = .symbol
      · rw [if_pos hk, if_neg (by simp [hk])]
        rcases tree.eval right names with ⟨e | value, names⟩ <;> rfl
      · rw [if_neg hk, if_pos (by simp [hk])]
        rfl
    | _ =>
      -- The other kinds are those of operators.
      simp only [eval, Node.isMalformed, Node.operands, evalAll, Kind.isLeaf, Bool.false_eq_true,
        if_false]
      rcases tree.eval left names with ⟨e | a, names⟩
      · rfl
      · dsimp only
        rcases tree.eval right names with ⟨e | b, names⟩ <;> rfl
  · cases kind <;> rfl

/-- The last step changes the names only if it is that of an assignment, which binds its target to
    its value. -/
theorem complete_cases (tree : ParseTree) (node : Node) (values : List Value) (names : Namespace) :
    ((tree.complete node values names).2 = names ∧
        ∀ value, (tree.complete node values names).1 = .ok value → node.kind ≠ .assign) ∨
      ∃ target source name value, node.kind = .assign ∧ node.children = [target, source] ∧
        values = [value] ∧ tree.symbolText target = .ok name ∧
          tree.complete node values names = (.ok value, names.set name value) := by
  unfold complete
  split
  · exact .inl ⟨rfl, nofun⟩
  · exact .inl ⟨rfl, nofun⟩
  · exact .inl ⟨rfl, nofun⟩
  · exact .inl ⟨rfl, nofun⟩
  · next target source value =>
    rw [bind]
    cases hname : tree.symbolText target with
    | error fault => exact .inl ⟨rfl, nofun⟩
    | ok name => exact .inr ⟨target, source, name, value, rfl, rfl, rfl, hname, rfl⟩
  · exact .inl ⟨rfl, nofun⟩
  · next hassign => exact .inl ⟨rfl, fun _ _ => hassign⟩
  · exact .inl ⟨rfl, nofun⟩

end ParseTree

end Arbor
