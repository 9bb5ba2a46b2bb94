import Arbor.Proofs.Evaluation.Renaming
import Arbor.Proofs.Node.Preorder
import Arbor.Proofs.Snapshot.Place

/-!
# Snapshots are faithful copies

The snapshot of a tree has a node wherever the tree has one, of the same kind and with the same
value (`Snapshot.at?_ofNode`), so that the pre-order of the one lists the copies of the walk over
the other (`Snapshot.preorder_ofNode`). Its names are what the tree answers when it is asked for
them (`Snapshot.symbol_ofNode`).

Two trees with the same snapshot have the same root (`Snapshot.ofNode_inj`), whatever their symbol
tables are. Evaluation asks these tables for names only, and so it cannot tell the trees apart if
all symbols have one (`ParseTree.evaluate_eq_of_symbolText?`).
-/

namespace Arbor

variable {tree tree' : ParseTree}

namespace ParseTree

/-- A node has a name to ask for or it is a mistake to ask for it. -/
theorem symbolText?_eq_none_iff {node : Node} :
    tree.symbolText? node = none ↔ ∃ fault, tree.symbolText node = .error fault := by
  constructor
  · intro hnone
    cases htext : tree.symbolText node with
    | error fault => exact ⟨fault, rfl⟩
    | ok name => exact nomatch hnone.symm.trans (symbolText_eq_ok_iff.1 htext)
  · rintro ⟨fault, hfault⟩
    cases hname : tree.symbolText? node with
    | none => rfl
    | some name => exact nomatch hfault.symm.trans (symbolText_eq_ok_iff.2 hname)

/-- Trees with the same root, whose symbols all have a name and the same one in both, have the same
    value and bind the same names. -/
theorem evaluate_eq_of_symbolText? (hroot : tree'.root = tree.root)
    (hnames : ∀ node ∈ tree.root.preorder, tree'.symbolText? node = tree.symbolText? node)
    (hsome : ∀ node ∈ tree.root.preorder, node.kind = .symbol → (tree.symbolText? node).isSome)
    (names : Namespace) : tree'.evaluate names = tree.evaluate names := by
  have hrenamed (node : Node) (hbelow : node.preorder ⊆ tree.root.preorder) :
      Node.Renamed tree tree' id node node := by
    induction node using Node.children_induction with
    | h node ih =>
      have hmem : node ∈ tree.root.preorder := hbelow node.mem_preorder_self
      refine .mk rfl (fun _ => rfl) (fun hkind => ?_) (List.forall₂_same.2 fun child hchild => ?_)
      · obtain ⟨name, hname⟩ := Option.isSome_iff_exists.1 (hsome node hmem hkind)
        exact ⟨name, hname, (hnames node hmem).trans hname⟩
      · exact ih child hchild (List.Subset.trans
          (Node.preorder_sublist_of_mem_children hchild).subset hbelow)
  have hmentioned : tree'.mentioned tree.root = tree.mentioned tree.root :=
    List.filterMap_congr hnames
  obtain ⟨hanswer, hagree⟩ := (hrenamed tree.root (List.Subset.refl _)).eval
    (Set.injOn_id _) (List.Subset.refl (tree.mentioned tree.root))
    (fun _ _ => rfl : Namespace.RenamedOn _ id names names)
  rw [evaluate, evaluate, hroot]
  refine Prod.ext hanswer (Namespace.ext_get? fun name => ?_)
  -- A name that is mentioned has the same value in both, and any other keeps the one it had.
  by_cases hname : name ∈ tree.mentioned tree.root
  · exact hagree name hname
  · rw [eval_get?_of_notMem_mentioned hname, eval_get?_of_notMem_mentioned (hmentioned ▸ hname)]

end ParseTree

namespace Snapshot

variable {symbols symbols' : SymbolTable} {node node' : Node}

theorem kind_ofNode : (ofNode symbols node).kind = node.kind := by
  cases node
  rfl

theorem value_ofNode : (ofNode symbols node).value = node.value := by
  cases node
  rfl

/-- The name in the snapshot of a node is the one that the tree gives for it. -/
theorem symbol_ofNode (tree : ParseTree) (node : Node) :
    (ofNode tree.symbols node).symbol = tree.symbolText? node := by
  cases node
  rfl

theorem ofNodes_eq_map (symbols : SymbolTable) (nodes : List Node) :
    ofNodes symbols nodes = nodes.map (ofNode symbols) := by
  induction nodes with
  | nil => rfl
  | cons node nodes ih => rw [ofNodes, ih, List.map_cons]

theorem children_ofNode : (ofNode symbols node).children = node.children.map (ofNode symbols) := by
  cases node with
  | mk kind value children => exact ofNodes_eq_map symbols children

/-- A snapshot has the copy of a node at the place of that node, and none elsewhere. -/
theorem at?_ofNode (symbols : SymbolTable) (node : Node) (place : List Nat) :
    (ofNode symbols node).at? place = (node.follow place).toOption.map (ofNode symbols) := by
  induction place generalizing node with
  | nil => rfl
  | cons index place ih =>
    rw [at?, children_ofNode, List.getElem?_map, Node.follow, Node.child]
    cases node.children[index]? with
    | none => rfl
    | some child => exact ih child

mutual

/-- The pre-order of a snapshot has the copies of the nodes in pre-order. -/
theorem preorder_ofNode : ∀ node : Node,
    (ofNode symbols node).preorder = node.preorder.map (ofNode symbols)
  | .mk kind value children => by
    rw [Node.preorder, List.map_cons, ← preorders_ofNodes children, ofNode, preorder]

theorem preorders_ofNodes : ∀ nodes : List Node,
    preorders (ofNodes symbols nodes) = (Node.preorders nodes).map (ofNode symbols)
  | [] => rfl
  | node :: nodes => by
    rw [Node.preorders, List.map_append, ← preorder_ofNode node, ← preorders_ofNodes nodes, ofNodes,
      preorders]

end

mutual

/-- The snapshot of a node tells the node. -/
theorem ofNode_inj : ∀ {node node' : Node},
    ofNode symbols node = ofNode symbols' node' → node = node'
  | .mk kind value children, .mk kind' value' children', h => by
    rw [ofNode, ofNode] at h
    obtain ⟨rfl, rfl, -, hchildren⟩ := mk.inj h
    rw [ofNodes_inj hchildren]

theorem ofNodes_inj : ∀ {nodes nodes' : List Node},
    ofNodes symbols nodes = ofNodes symbols' nodes' → nodes = nodes'
  | [], [], _ => rfl
  | node :: nodes, node' :: nodes', h => by
    obtain ⟨hnode, hnodes⟩ := List.cons.inj h
    rw [ofNode_inj hnode, ofNodes_inj hnodes]

end

/-- Snapshots agree with their trees, however these were made.

    At every place there is a node in the snapshot if and only if there is one in the tree, and
    both have the same kind, value and number of children. In pre-order, the snapshot lists the
    nodes of the walk, each with its kind, its value, and the name that the tree has for it. No name
    is there exactly for the nodes whose name it is a mistake to ask for. A tree with the same
    snapshot, in which every symbol has a name, has the same value in any namespace, and binds
    the same names. -/
theorem ofTree_agrees (tree : ParseTree) :
    (∀ place, ((ofTree tree).at? place).map (fun s => (s.kind, s.value, s.children.length)) =
        (tree.root.follow place).toOption.map fun node =>
          (node.kind, node.value, node.childCount)) ∧
      List.Forall₂ (fun node s => s.kind = node.kind ∧ s.value = node.value ∧
          s.symbol = tree.symbolText? node ∧
            (s.symbol = none ↔ ∃ fault, tree.symbolText node = .error fault))
        tree.root.walk (ofTree tree).preorder ∧
        ∀ tree' : ParseTree, ofTree tree' = ofTree tree →
          (∀ s ∈ (ofTree tree).preorder, s.kind = .symbol → s.symbol.isSome) →
            ∀ names, tree'.evaluate names = tree.evaluate names := by
  refine ⟨fun place => ?_, ?_, fun tree' hsame hsome names => ?_⟩
  · rw [ofTree, at?_ofNode, Option.map_map]
    congr 1
    funext node
    simp [kind_ofNode, value_ofNode, children_ofNode, Node.childCount]
  · rw [Node.walk_eq_preorder, ofTree, preorder_ofNode, List.forall₂_map_right_iff]
    refine List.forall₂_same.2 fun node _ => ⟨kind_ofNode, value_ofNode, symbol_ofNode tree node, ?_⟩
    rw [symbol_ofNode, ParseTree.symbolText?_eq_none_iff]
  · have hroot : tree'.root = tree.root := ofNode_inj hsame
    rw [ofTree, ofTree, hroot] at hsame
    have hcopies : tree.root.preorder.map (ofNode tree'.symbols) =
        tree.root.preorder.map (ofNode tree.symbols) := by
      rw [← preorder_ofNode, ← preorder_ofNode, hsame]
    rw [ofTree, preorder_ofNode, List.forall_mem_map] at hsome
    refine ParseTree.evaluate_eq_of_symbolText? hroot (fun node hnode => ?_)
      (fun node hnode hkind => ?_) names
    · rw [← symbol_ofNode, ← symbol_ofNode, List.map_inj_left.1 hcopies node hnode]
    · rw [← symbol_ofNode]
      exact hsome node hnode (kind_ofNode.trans hkind)

/-- The same assignment with a name more in the table, which nothing mentions, and a bound on the
    number of names. The payload of its root is no index of a name. -/
theorem ofTree_agrees_assign :
    let root : Node := .mk .assign (-1) [.leaf .symbol 0, .leaf .number 5]
    let tree : ParseTree := ⟨root, { entries := #["x"] }⟩
    let tree' : ParseTree := ⟨root, { entries := #["x", "y"], capacity := some 2 }⟩
    ofTree tree' = ofTree tree ∧
      (∀ s ∈ (ofTree tree).preorder, s.kind = .symbol → s.symbol.isSome) ∧
        tree'.evaluate {} = tree.evaluate {} ∧
          (tree.evaluate {}).2.get? "x" = some (.int 5) := by
  intro root tree tree'
  have hsame : ofTree tree' = ofTree tree := rfl
  have hsome : ∀ s ∈ (ofTree tree).preorder, s.kind = .symbol → s.symbol.isSome := by
    decide +kernel
  exact ⟨hsame, hsome, (ofTree_agrees tree).2.2 tree' hsame hsome {}, by decide +kernel⟩

end Snapshot

end Arbor
