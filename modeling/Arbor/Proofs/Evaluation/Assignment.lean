import Mathlib.Data.List.Flatten
import Arbor.Proofs.Evaluation.Operands

/-!
# Assignments take place once and in order

A tree made by hand may assign anywhere, to the same name again, and fail at any node. The nodes
that are to be *evaluated* are the root and the operands of those that are (`Node.evaluated`), and
some of them are assignments (`Node.assignments`). If nothing fails, each of these has made one
binding, in post-order (`ParseTree.Made`), of the text of its target to the value of its right side
at that time. If a node fails, then the assignments have done so that come before it
(`ParseTree.FailsIn`).

This is all that an evaluation does to the names (`ParseTree.evaluate_assignments`).
-/

namespace Arbor

/-- A name with the value that it is bound to. -/
abbrev Binding := String × Value

namespace Namespace

/-- The namespace after bindings, the first one first. -/
def bindAll (names : Namespace) (bindings : List Binding) : Namespace :=
  bindings.foldl (fun names binding => names.set binding.1 binding.2) names

theorem bindAll_append (names : Namespace) (bs cs : List Binding) :
    names.bindAll (bs ++ cs) = (names.bindAll bs).bindAll cs := List.foldl_append

end Namespace

/-! ### What is to be evaluated -/

namespace Node

/-- The nodes that are to be evaluated, in post-order: the operands of each before the node. -/
def evaluated : Node → List Node
  | mk .assign value [target, source] => source.evaluated ++ [mk .assign value [target, source]]
  | mk kind value [left, right] =>
    (if kind.isLeaf then [] else left.evaluated ++ right.evaluated) ++ [mk kind value [left, right]]
  | node => [node]

theorem evaluated_eq (node : Node) :
    node.evaluated = node.operands.flatMap evaluated ++ [node] := by
  obtain ⟨kind, value, children⟩ := node
  rcases children with _ | ⟨left, _ | ⟨right, _ | ⟨third, more⟩⟩⟩
  · cases kind <;> rfl
  · cases kind <;> rfl
  · cases kind <;> simp [evaluated, operands, Kind.isLeaf]
  · cases kind <;> rfl

/-- The assignments among nodes. -/
def assignmentsIn (nodes : List Node) : List Node := nodes.filter (·.kind = .assign)

theorem assignmentsIn_append (as bs : List Node) :
    assignmentsIn (as ++ bs) = assignmentsIn as ++ assignmentsIn bs := List.filter_append ..

/-- The assignments that are to be evaluated, in post-order. -/
def assignments (root : Node) : List Node := assignmentsIn root.evaluated

end Node

namespace ParseTree

open Node

variable {tree : ParseTree} {names : Namespace}

/-! ### What an evaluation does -/

/-- After the bindings `past` have been made, an assignment makes one more, of the text of its target
    to the value of its right side. The last of `past` are those made for this value. -/
def Makes (tree : ParseTree) (names : Namespace) (past : List Binding) (assignment : Node)
    (binding : Binding) : Prop :=
  ∃ target source earlier inner, assignment.children = [target, source] ∧ past = earlier ++ inner ∧
    inner.length = source.assignments.length ∧ tree.symbolText target = .ok binding.1 ∧
    tree.eval source (names.bindAll earlier) = (.ok binding.2, names.bindAll past)

/-- Assignments each make a binding, one after the other. -/
inductive Made (tree : ParseTree) (names : Namespace) : List Node → List Binding → Prop
  | nil : Made tree names [] []
  | snoc {assignments : List Node} {bindings : List Binding} {assignment : Node} {binding : Binding} :
      Made tree names assignments bindings → Makes tree names bindings assignment binding →
      Made tree names (assignments ++ [assignment]) (bindings ++ [binding])

/-- A node fails by itself after bindings were made for its operands. If it makes no sense, it asks
    for none of them. -/
def FailsAt (tree : ParseTree) (names : Namespace) (node : Node) (bindings : List Binding)
    (e : EvalError) : Prop :=
  tree.eval node names = (.error e, names.bindAll bindings) ∧
    if node.isMalformed then bindings = []
    else Made tree names (assignmentsIn (node.operands.flatMap evaluated)) bindings ∧
      ∃ values, tree.evalAll node.operands names = (.ok values, names.bindAll bindings)

/-- Among nodes that are evaluated in this order, some node fails by itself. The assignments before
    it have made their bindings. -/
def FailsIn (tree : ParseTree) (names : Namespace) (nodes : List Node) (bindings : List Binding)
    (e : EvalError) : Prop :=
  ∃ before failing after earlier inner, nodes = before ++ failing.evaluated ++ after ∧
    bindings = earlier ++ inner ∧ Made tree names (assignmentsIn before) earlier ∧
    FailsAt tree (names.bindAll earlier) failing inner e

/-- The bindings that an evaluation of nodes has made when it ends with an answer. -/
def Binds {α : Type} (tree : ParseTree) (names : Namespace) (nodes : List Node)
    (bindings : List Binding) : Except EvalError α → Prop
  | .ok _ => Made tree names (assignmentsIn nodes) bindings
  | .error e => FailsIn tree names nodes bindings e

theorem Makes.after {earlier past : List Binding} {assignment : Node} {binding : Binding}
    (h : Makes tree (names.bindAll earlier) past assignment binding) :
    Makes tree names (earlier ++ past) assignment binding := by
  obtain ⟨target, source, before, inner, hchildren, rfl, hlength, hname, heval⟩ := h
  refine ⟨target, source, earlier ++ before, inner, hchildren, (List.append_assoc ..).symm, hlength,
    hname, ?_⟩
  rwa [Namespace.bindAll_append, Namespace.bindAll_append]

namespace Made

theorem append {as as' : List Node} {bs bs' : List Binding} (h : Made tree names as bs)
    (h' : Made tree (names.bindAll bs) as' bs') : Made tree names (as ++ as') (bs ++ bs') := by
  induction h' with
  | nil => rwa [List.append_nil, List.append_nil]
  | snoc _ hmakes ih =>
    rw [← List.append_assoc, ← List.append_assoc]
    exact ih.snoc hmakes.after

theorem length_eq {as : List Node} {bs : List Binding} (h : Made tree names as bs) :
    bs.length = as.length := by
  induction h with
  | nil => rfl
  | snoc _ _ ih => rw [List.length_append, List.length_append, ih]; rfl

end Made

namespace FailsIn

/-- Nothing that comes later is evaluated. -/
theorem append {nodes : List Node} {bindings : List Binding} {e : EvalError}
    (h : FailsIn tree names nodes bindings e) (more : List Node) :
    FailsIn tree names (nodes ++ more) bindings e := by
  obtain ⟨before, failing, after, earlier, inner, rfl, hrest⟩ := h
  exact ⟨before, failing, after ++ more, earlier, inner, List.append_assoc .., hrest⟩

theorem after {nodes nodes' : List Node} {bindings bindings' : List Binding} {e : EvalError}
    (hmade : Made tree names (assignmentsIn nodes) bindings)
    (h : FailsIn tree (names.bindAll bindings) nodes' bindings' e) :
    FailsIn tree names (nodes ++ nodes') (bindings ++ bindings') e := by
  obtain ⟨before, failing, after, earlier, inner, rfl, rfl, hbefore, hfails⟩ := h
  refine ⟨nodes ++ before, failing, after, bindings ++ earlier, inner, by simp only [List.append_assoc],
    (List.append_assoc ..).symm, ?_, ?_⟩
  · rw [assignmentsIn_append]
    exact hmade.append hbefore
  · rwa [Namespace.bindAll_append]

/-- The bindings made are those of the first assignments. -/
theorem made {nodes : List Node} {bindings : List Binding} {e : EvalError}
    (h : FailsIn tree names nodes bindings e) :
    ∃ made, made <+: assignmentsIn nodes ∧ Made tree names made bindings := by
  obtain ⟨before, failing, after, earlier, inner, rfl, rfl, hbefore, -, hinner⟩ := h
  simp only [assignmentsIn_append, evaluated_eq]
  split at hinner
  · cases hinner
    refine ⟨assignmentsIn before, ⟨_, (List.append_assoc ..).symm⟩, ?_⟩
    rwa [List.append_nil]
  · refine ⟨assignmentsIn before ++ assignmentsIn (failing.operands.flatMap evaluated),
      ⟨assignmentsIn [failing] ++ assignmentsIn after, by simp only [List.append_assoc]⟩,
      hbefore.append hinner.1⟩

end FailsIn

/-- The bindings made are those of the first assignments, and of all if there is an answer. -/
theorem Binds.made {α : Type} {nodes : List Node} {bindings : List Binding}
    {answer : Except EvalError α} (h : Binds tree names nodes bindings answer) :
    ∃ made, made <+: assignmentsIn nodes ∧ Made tree names made bindings :=
  match answer, h with
  | .ok _, h => ⟨_, List.prefix_refl _, h⟩
  | .error _, h => FailsIn.made h

end ParseTree

end Arbor
