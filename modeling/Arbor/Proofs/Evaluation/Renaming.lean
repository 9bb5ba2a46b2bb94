import Mathlib.Data.List.Forall2
import Mathlib.Data.Set.Function
import Arbor.Proofs.Evaluation.Operands
import Arbor.Proofs.Node.Walk

/-!
# Names matter up to renaming

Two trees are the same *up to names* (`Node.Renamed`) if they have the same shape, kinds and
literals, and a function takes the text of every symbol of the first to that of the same symbol of
the second. Their symbol tables and the indices into them may have nothing in common.

If the function is injective on these texts, and the namespaces agree along it
(`Namespace.RenamedOn`), then both trees have the same value or the same error, and the namespaces
agree afterwards (`ParseTree.evaluate_renamed`). No tree changes the value of a name that it does
not mention (`ParseTree.eval_get?_of_notMem_mentioned`).
-/

namespace Arbor

variable {tree tree' : ParseTree} {node node' : Node} {rename : String → String}
  {texts : List String} {m n : Namespace}

/-! ### Names a tree mentions -/

namespace Node

theorem preorder_sublist_of_mem_children {child : Node} (h : child ∈ node.children) :
    child.preorder.Sublist node.preorder := by
  have hrow {nodes : List Node} (h : child ∈ nodes) : child.preorder.Sublist (preorders nodes) := by
    induction nodes with
    | nil => cases h
    | cons first nodes ih =>
      rcases List.mem_cons.1 h with rfl | h
      · exact List.sublist_append_left _ _
      · exact (ih h).trans (List.sublist_append_right _ _)
  obtain ⟨kind, value, children⟩ := node
  exact (hrow h).trans (List.sublist_cons_self _ _)

end Node

namespace ParseTree

/-- The texts of the symbols below a node, as far as they have one. -/
def mentioned (tree : ParseTree) (root : Node) : List String :=
  root.preorder.filterMap tree.symbolText?

theorem mem_mentioned_self {name : String} (h : tree.symbolText? node = some name) :
    name ∈ tree.mentioned node :=
  List.mem_filterMap.2 ⟨node, node.mem_preorder_self, h⟩

theorem mentioned_subset_of_mem_children {child : Node} (h : child ∈ node.children) :
    tree.mentioned child ⊆ tree.mentioned node :=
  ((Node.preorder_sublist_of_mem_children h).filterMap _).subset

theorem symbolText_eq_ok_iff {name : String} :
    tree.symbolText node = .ok name ↔ tree.symbolText? node = some name := by
  unfold symbolText symbolText?
  split
  · split <;> simp_all
  · simp

/-- If nodes each keep the value of a name, then so does evaluating them one after the other. -/
theorem evalAll_get? {nodes : List Node} {name : String}
    (h : ∀ node ∈ nodes, ∀ m, (tree.eval node m).2.get? name = m.get? name) (m : Namespace) :
    (tree.evalAll nodes m).2.get? name = m.get? name := by
  induction nodes generalizing m with
  | nil => rfl
  | cons node nodes ih =>
    obtain ⟨hnode, hnodes⟩ := List.forall_mem_cons.1 h
    specialize hnode m
    rw [evalAll]
    rcases heval : tree.eval node m with ⟨e | value, m'⟩
    · rwa [heval] at hnode
    · rw [heval] at hnode
      specialize ih hnodes m'
      dsimp only
      rcases hall : tree.evalAll nodes m' with ⟨e | values, m''⟩
      · exact (hall ▸ ih).trans hnode
      · exact (hall ▸ ih).trans hnode

/-- Evaluating a node keeps the value of every name that is not mentioned below it. -/
theorem eval_get?_of_notMem_mentioned {name : String} (h : name ∉ tree.mentioned node)
    (m : Namespace) : (tree.eval node m).2.get? name = m.get? name := by
  induction node using Node.operands_induction generalizing m with
  | h node ih =>
    have hoperands : (tree.evalAll node.operands m).2.get? name = m.get? name :=
      evalAll_get? (fun operand ho m => ih operand ho
        (fun hname => h (mentioned_subset_of_mem_children (node.operands_sublist.subset ho) hname)) m) m
    rw [eval_eq]
    split
    · rfl
    · rcases hall : tree.evalAll node.operands m with ⟨e | values, m'⟩
      · rwa [hall] at hoperands
      · rw [hall] at hoperands
        refine Eq.trans ?_ hoperands
        dsimp only
        obtain ⟨hsame, -⟩ | ⟨target, source, other, value, -, hchildren, -, hother, hcomplete⟩ :=
          tree.complete_cases node values m'
        · rw [hsame]
        · have hne : name ≠ other := by
            rintro rfl
            have htarget : target ∈ node.children := hchildren ▸ List.mem_cons_self
            exact h (mentioned_subset_of_mem_children htarget
              (mem_mentioned_self (symbolText_eq_ok_iff.1 hother)))
          rw [hcomplete, Namespace.get?_set, if_neg hne]

end ParseTree

/-! ### Renaming -/

/-- A namespace has under the new names of some texts what another has under the texts. -/
def Namespace.RenamedOn (texts : List String) (rename : String → String) (m n : Namespace) : Prop :=
  ∀ name ∈ texts, n.get? (rename name) = m.get? name

/-- Binding a name and its new name to the same value keeps this so if no other text has this new
    name. -/
theorem Namespace.RenamedOn.set (h : RenamedOn texts rename m n)
    (hinj : Set.InjOn rename {name | name ∈ texts}) {name : String} (hname : name ∈ texts)
    (value : Value) : RenamedOn texts rename (m.set name value) (n.set (rename name) value) := by
  intro other hother
  have hiff : rename other = rename name ↔ other = name := hinj.eq_iff hother hname
  rw [get?_set, get?_set, h other hother]
  simp only [hiff]

/-- Two nodes are the same up to names, with those below them. What a node carries matters only if
    it is a literal. -/
inductive Node.Renamed (tree tree' : ParseTree) (rename : String → String) : Node → Node → Prop
  | mk {node node' : Node} (kind_eq : node'.kind = node.kind)
      (value_eq : node.kind = .number ∨ node.kind = .boolean → node'.value = node.value)
      (text : node.kind = .symbol → ∃ name, tree.symbolText? node = some name ∧
        tree'.symbolText? node' = some (rename name))
      (children : List.Forall₂ (Renamed tree tree' rename) node.children node'.children) :
      Renamed tree tree' rename node node'

/-- Two evaluations end with the same answer, and with namespaces that agree along a renaming. -/
def RenamedResult {α : Type} (texts : List String) (rename : String → String)
    (result result' : Except EvalError α × Namespace) : Prop :=
  result'.1 = result.1 ∧ Namespace.RenamedOn texts rename result.2 result'.2

namespace Node.Renamed

theorem kind_eq (h : Renamed tree tree' rename node node') : node'.kind = node.kind := by
  cases h; assumption

theorem children (h : Renamed tree tree' rename node node') :
    List.Forall₂ (Renamed tree tree' rename) node.children node'.children := by
  cases h; assumption

theorem text (h : Renamed tree tree' rename node node') (hkind : node.kind = .symbol) :
    ∃ name, tree.symbolText? node = some name ∧ tree'.symbolText? node' = some (rename name) := by
  cases h with
  | mk _ _ text _ => exact text hkind

theorem value_eq (h : Renamed tree tree' rename node node')
    (hkind : node.kind = .number ∨ node.kind = .boolean) : node'.value = node.value := by
  cases h with
  | mk _ value_eq _ _ => exact value_eq hkind

theorem childCount_eq (h : Renamed tree tree' rename node node') :
    node'.childCount = node.childCount := h.children.length_eq.symm

/-- If a node makes no sense, then neither does a node that is the same up to names. -/
theorem isMalformed_eq (h : Renamed tree tree' rename node node') :
    node'.isMalformed = node.isMalformed := by
  have hkind := h.kind_eq
  have hchildren := h.children
  obtain ⟨kind, value, children⟩ := node
  obtain ⟨kind', value', children'⟩ := node'
  obtain rfl : kind' = kind := hkind
  rcases hchildren with _ | ⟨hleft, _ | ⟨hright, _ | ⟨hthird, hmore⟩⟩⟩
  · cases kind' <;> rfl
  · cases kind' <;> rfl
  · cases kind' <;> simp [isMalformed, hleft.kind_eq]
  · cases kind' <;> rfl

/-- The operands are the same up to names. -/
theorem operands (h : Renamed tree tree' rename node node') :
    List.Forall₂ (Renamed tree tree' rename) node.operands node'.operands := by
  have hkind := h.kind_eq
  have hchildren := h.children
  obtain ⟨kind, value, children⟩ := node
  obtain ⟨kind', value', children'⟩ := node'
  obtain rfl : kind' = kind := hkind
  rcases hchildren with _ | ⟨hleft, _ | ⟨hright, _ | ⟨hthird, hmore⟩⟩⟩
  · cases kind' <;> exact .nil
  · cases kind' <;> exact .nil
  · cases kind' with
    | assign => exact .cons hright .nil
    | number | boolean | symbol | nil => exact .nil
    | _ => exact .cons hleft (.cons hright .nil)
  · cases kind' <;> exact .nil

/-- What is done with the values of the operands is the same. -/
theorem complete (h : Renamed tree tree' rename node node') (hsense : ¬ node.isMalformed = true)
    (hinj : Set.InjOn rename {name | name ∈ texts}) (htexts : tree.mentioned node ⊆ texts)
    (hmn : Namespace.RenamedOn texts rename m n) (values : List Value) :
    RenamedResult texts rename (tree.complete node values m) (tree'.complete node' values n) := by
  have hkind := h.kind_eq
  have hvalue := h.value_eq
  have hchildren := h.children
  obtain ⟨kind, value, children⟩ := node
  obtain ⟨kind', value', children'⟩ := node'
  obtain rfl : kind' = kind := hkind
  have hcount : children'.length = children.length := hchildren.length_eq.symm
  cases kind' with
  | number =>
    obtain rfl : value' = value := hvalue (.inl rfl)
    exact ⟨rfl, hmn⟩
  | boolean =>
    obtain rfl : value' = value := hvalue (.inr rfl)
    exact ⟨rfl, hmn⟩
  | nil => exact ⟨rfl, hmn⟩
  | symbol =>
    obtain ⟨name, hname, hname'⟩ := h.text rfl
    refine ⟨?_, hmn⟩
    simp only [ParseTree.complete, ParseTree.resolve, ParseTree.symbolText_eq_ok_iff.2 hname,
      ParseTree.symbolText_eq_ok_iff.2 hname', hmn name (htexts (ParseTree.mem_mentioned_self hname))]
  | assign =>
    rcases hchildren with _ | ⟨htarget, _ | ⟨hsource, _ | ⟨hthird, hmore⟩⟩⟩
    · exact ⟨rfl, hmn⟩
    · exact ⟨rfl, hmn⟩
    · next target target' source source' =>
      rcases values with _ | ⟨value, _ | ⟨second, values⟩⟩
      · exact ⟨rfl, hmn⟩
      · have htargetKind : target.kind = .symbol := by simpa [isMalformed] using hsense
        obtain ⟨name, hname, hname'⟩ := htarget.text htargetKind
        have hmem : name ∈ texts := htexts (ParseTree.mentioned_subset_of_mem_children
          List.mem_cons_self (ParseTree.mem_mentioned_self hname))
        simp only [ParseTree.complete, ParseTree.bind, ParseTree.symbolText_eq_ok_iff.2 hname,
          ParseTree.symbolText_eq_ok_iff.2 hname']
        exact ⟨rfl, hmn.set hinj hmem value⟩
      · exact ⟨rfl, hmn⟩
    · exact ⟨by simp [ParseTree.complete, hcount], hmn⟩
  | _ =>
    -- The other kinds are those of operators, which are applied to two values.
    rcases values with _ | ⟨a, _ | ⟨b, _ | ⟨c, values⟩⟩⟩
    · exact ⟨by simp [ParseTree.complete, hcount], hmn⟩
    · exact ⟨by simp [ParseTree.complete, hcount], hmn⟩
    · exact ⟨rfl, hmn⟩
    · exact ⟨by simp [ParseTree.complete, hcount], hmn⟩

/-- If nodes evaluate to the same up to names, then so does one after the other. -/
theorem evalAll {nodes nodes' : List Node}
    (h : List.Forall₂ (fun node node' => ∀ m n, Namespace.RenamedOn texts rename m n →
      RenamedResult texts rename (tree.eval node m) (tree'.eval node' n)) nodes nodes')
    (hmn : Namespace.RenamedOn texts rename m n) :
    RenamedResult texts rename (tree.evalAll nodes m) (tree'.evalAll nodes' n) := by
  induction h generalizing m n with
  | nil => exact ⟨rfl, hmn⟩
  | @cons node node' nodes nodes' hnode hnodes ih =>
    obtain ⟨hanswer, hnames⟩ := hnode m n hmn
    rw [ParseTree.evalAll, ParseTree.evalAll]
    rcases heval : tree.eval node m with ⟨answer, m'⟩
    rcases heval' : tree'.eval node' n with ⟨answer', n'⟩
    rw [heval, heval'] at hanswer hnames
    obtain rfl : answer' = answer := hanswer
    rcases answer' with e | value
    · exact ⟨rfl, hnames⟩
    · obtain ⟨hanswers, hnames'⟩ := ih hnames
      dsimp only at hanswers hnames' ⊢
      rcases hall : tree.evalAll nodes m' with ⟨answers, m''⟩
      rcases hall' : tree'.evalAll nodes' n' with ⟨answers', n''⟩
      rw [hall, hall'] at hanswers hnames'
      obtain rfl : answers' = answers := hanswers
      rcases answers' with e | values
      · exact ⟨rfl, hnames'⟩
      · exact ⟨rfl, hnames'⟩

/-- Nodes that are the same up to names evaluate to the same. -/
theorem eval (h : Renamed tree tree' rename node node')
    (hinj : Set.InjOn rename {name | name ∈ texts}) (htexts : tree.mentioned node ⊆ texts)
    (hmn : Namespace.RenamedOn texts rename m n) :
    RenamedResult texts rename (tree.eval node m) (tree'.eval node' n) := by
  induction node using Node.operands_induction generalizing node' m n with
  | h node ih =>
    have hoperands : List.Forall₂ (fun operand operand' => ∀ m n,
        Namespace.RenamedOn texts rename m n →
          RenamedResult texts rename (tree.eval operand m) (tree'.eval operand' n))
        node.operands node'.operands := by
      refine ((List.forall₂_and_left _ _).2 ⟨fun _ ho => ho, h.operands⟩).imp ?_
      rintro operand operand' ⟨ho, hoperand⟩ m n hmn
      exact ih operand ho hoperand (List.Subset.trans
        (ParseTree.mentioned_subset_of_mem_children (node.operands_sublist.subset ho)) htexts) hmn
    rw [ParseTree.eval_eq, ParseTree.eval_eq, h.isMalformed_eq, h.kind_eq, h.childCount_eq]
    split
    · exact ⟨rfl, hmn⟩
    · next hsense =>
      obtain ⟨hanswers, hnames⟩ := evalAll hoperands hmn
      rcases hall : tree.evalAll node.operands m with ⟨answers, m'⟩
      rcases hall' : tree'.evalAll node'.operands n with ⟨answers', n'⟩
      rw [hall, hall'] at hanswers hnames
      obtain rfl : answers' = answers := hanswers
      rcases answers' with e | values
      · exact ⟨rfl, hnames⟩
      · exact h.complete hsense hinj htexts hnames values

end Node.Renamed

namespace ParseTree

/-- Trees that are the same up to names have the same value or the same error where the namespaces
    agree along the renaming, and the namespaces agree afterwards. Neither tree changes the value of
    a name that it does not mention. -/
theorem evaluate_renamed (h : Node.Renamed tree tree' rename tree.root tree'.root)
    (hinj : Set.InjOn rename {name | name ∈ tree.mentioned tree.root})
    (hmn : Namespace.RenamedOn (tree.mentioned tree.root) rename m n) :
    RenamedResult (tree.mentioned tree.root) rename (tree.evaluate m) (tree'.evaluate n) ∧
      (∀ name ∉ tree.mentioned tree.root, (tree.evaluate m).2.get? name = m.get? name) ∧
      ∀ name ∉ tree'.mentioned tree'.root, (tree'.evaluate n).2.get? name = n.get? name :=
  ⟨h.eval hinj (List.Subset.refl _) hmn,
    fun _ hname => eval_get?_of_notMem_mentioned hname m,
    fun _ hname => eval_get?_of_notMem_mentioned hname n⟩

/-- The assignments `x = y + 2` and `z = a + 2` are the same up to names, although their tables have
    different sizes and one of the roots carries a value. -/
theorem evaluate_renamed_sum :
    let tree : ParseTree :=
      ⟨.branch .assign [.leaf .symbol 0, .branch .add [.leaf .symbol 1, .leaf .number 2]],
        { entries := #["x", "y"] }⟩
    let tree' : ParseTree :=
      ⟨.mk .assign 7 [.leaf .symbol 2, .branch .add [.leaf .symbol 0, .leaf .number 2]],
        { entries := #["a", "b", "z"] }⟩
    let rename (name : String) := if name = "x" then "z" else "a"
    let m := ({} : Namespace).set "y" (.int 5)
    let n := (({} : Namespace).set "a" (.int 5)).set "y" .nil
    Node.Renamed tree tree' rename tree.root tree'.root ∧
      Set.InjOn rename {name | name ∈ tree.mentioned tree.root} ∧
      Namespace.RenamedOn (tree.mentioned tree.root) rename m n ∧
      (tree'.evaluate n).1 = (tree.evaluate m).1 ∧ (tree.evaluate m).1 = .ok (.int 7) ∧
      (tree'.evaluate n).2.get? "z" = some (.int 7) := by
  intro tree tree' rename m n
  have hmentioned : tree.mentioned tree.root = ["x", "y"] := by decide
  have hleft : Node.Renamed tree tree' rename (.leaf .symbol 0) (.leaf .symbol 2) :=
    .mk rfl (by decide) (fun _ => ⟨"x", by decide, by decide⟩) .nil
  have hright : Node.Renamed tree tree' rename (.leaf .symbol 1) (.leaf .symbol 0) :=
    .mk rfl (by decide) (fun _ => ⟨"y", by decide, by decide⟩) .nil
  have hnumber : Node.Renamed tree tree' rename (.leaf .number 2) (.leaf .number 2) :=
    .mk rfl (fun _ => rfl) nofun .nil
  have hsum : Node.Renamed tree tree' rename (.branch .add [.leaf .symbol 1, .leaf .number 2])
      (.branch .add [.leaf .symbol 0, .leaf .number 2]) :=
    .mk rfl nofun nofun (.cons hright (.cons hnumber .nil))
  have hrenamed : Node.Renamed tree tree' rename tree.root tree'.root :=
    .mk rfl nofun nofun (.cons hleft (.cons hsum .nil))
  have hinj : ∀ x ∈ ["x", "y"], ∀ y ∈ ["x", "y"], rename x = rename y → x = y := by decide
  have hmn : ∀ x ∈ ["x", "y"], n.get? (rename x) = m.get? x := by decide
  rw [← hmentioned] at hinj hmn
  have hinjOn : Set.InjOn rename {name | name ∈ tree.mentioned tree.root} :=
    fun x hx y hy => hinj x hx y hy
  exact ⟨hrenamed, hinjOn, hmn, (evaluate_renamed hrenamed hinjOn hmn).1.1, by decide, by decide⟩

end ParseTree

end Arbor
