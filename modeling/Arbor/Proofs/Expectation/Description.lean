import Arbor.Expectation
import Arbor.Proofs.Evaluation.Expression
import Arbor.Proofs.Evaluation.Renaming

/-!
# Descriptions of trees

A tree is described by the expectations that it meets itself: those of a leaf for its leaves, and
the kind and the number of children for all other nodes, with a description of every child behind
them (`ParseTree.description`).

A description is met by the trees that have the same shape, kinds, literals and names, and by no
others. Where it is not met, the mismatch is at the first place where the trees *look* different,
in the order in which an ancestor comes before its descendants and a sibling before those on its
right (`ParseTree.expect_description`). Checks go node by node (`Expectation.checkAll_heading`), and
through a row of children from left to right (`Expectation.checkAll_describeFrom`).
-/

namespace Arbor

/-! ### What nodes look like -/

/-- What expectations tell of a node. -/
structure Look where
  kind : Kind
  /-- The value of a number or a boolean. -/
  literal : Option Int64
  /-- The name of a symbol. -/
  name : Option String
  childCount : Nat
  deriving DecidableEq

namespace ParseTree

/-- What a node of a tree looks like. -/
def look (tree : ParseTree) (node : Node) : Look where
  kind := node.kind
  literal := if node.kind = .number ∨ node.kind = .boolean then some node.value else none
  name := tree.symbolText? node
  childCount := node.childCount

/-- What stands at a place below a node. -/
def lookAt (tree : ParseTree) (node : Node) (place : List Nat) : Option Look :=
  (node.follow place).toOption.map tree.look

/-- What stands at a place below a row of nodes. -/
def lookRow (tree : ParseTree) (row : List Node) : List Nat → Option Look
  | [] => none
  | index :: place => row[index]?.bind (tree.lookAt · place)

/-- A value matters in literals, and a name in symbols. -/
theorem look_eq_iff {t u : ParseTree} {n m : Node} : t.look n = u.look m ↔
    m.kind = n.kind ∧ (n.kind = .number ∨ n.kind = .boolean → m.value = n.value) ∧
      (n.kind = .symbol → t.symbolText? n = u.symbolText? m) ∧ m.childCount = n.childCount := by
  rw [look, look, Look.mk.injEq]
  constructor
  · rintro ⟨hk, hvalue, hname, hcount⟩
    rw [← hk] at hvalue
    refine ⟨hk.symm, fun h => ?_, fun _ => hname, hcount.symm⟩
    rw [if_pos h, if_pos h] at hvalue
    exact (Option.some.inj hvalue).symm
  · rintro ⟨hk, hvalue, hname, hcount⟩
    refine ⟨hk.symm, ?_, ?_, hcount.symm⟩
    · rw [hk]
      split
      · next h => rw [hvalue h]
      · rfl
    · by_cases h : n.kind = .symbol
      · exact hname h
      · rw [symbolText?, symbolText?, hk, if_neg h, if_neg h]

theorem lookAt_cons (tree : ParseTree) (node : Node) (index : Nat) (place : List Nat) :
    tree.lookAt node (index :: place) = tree.lookRow node.children (index :: place) := by
  rw [lookAt, lookRow, Node.follow, Node.child]
  cases node.children[index]? <;> rfl

end ParseTree

/-- Something stands at a place on both sides and does not look the same, while all places before
    it do: those on the way to it, and those to the left of that way. -/
structure FirstDifference (f g : List Nat → Option Look) (place : List Nat) : Prop where
  left : (f place).isSome
  right : (g place).isSome
  ne : f place ≠ g place
  before : ∀ earlier, List.Lex (· < ·) earlier place → f earlier = g earlier

namespace FirstDifference

variable {t u : ParseTree} {n m c d : Node} {cs ds : List Node} {index : Nat} {place : List Nat}

/-- Nothing comes before the root. -/
theorem root (h : ¬t.look n = u.look m) : FirstDifference (t.lookAt n) (u.lookAt m) [] :=
  ⟨rfl, rfl, fun heq => h (Option.some.inj heq), nofun⟩

/-- Nodes that look the same differ first where their children do. -/
theorem below (hlook : t.look n = u.look m)
    (h : FirstDifference (t.lookRow n.children) (u.lookRow m.children) (index :: place)) :
    FirstDifference (t.lookAt n) (u.lookAt m) (index :: place) := by
  obtain ⟨hleft, hright, hne, hbefore⟩ := h
  rw [← ParseTree.lookAt_cons] at hleft hright
  rw [← ParseTree.lookAt_cons, ← ParseTree.lookAt_cons] at hne
  refine ⟨hleft, hright, hne, ?_⟩
  rintro (_ | ⟨earlier, rest⟩) hlt
  · exact congrArg some hlook
  · rw [ParseTree.lookAt_cons, ParseTree.lookAt_cons]
    exact hbefore _ hlt

/-- Rows differ first where their first nodes do, if these differ. -/
theorem head (h : FirstDifference (t.lookAt c) (u.lookAt d) place) :
    FirstDifference (t.lookRow (c :: cs)) (u.lookRow (d :: ds)) (0 :: place) := by
  refine ⟨h.left, h.right, h.ne, ?_⟩
  intro earlier hlt
  cases hlt with
  | nil => rfl
  | cons hlt => exact h.before _ hlt
  | rel hlt => cases hlt

/-- Rows differ first where the rest does, if their first nodes do not differ. -/
theorem tail (hhead : ∀ place, t.lookAt c place = u.lookAt d place)
    (h : FirstDifference (t.lookRow cs) (u.lookRow ds) (index :: place)) :
    FirstDifference (t.lookRow (c :: cs)) (u.lookRow (d :: ds)) ((index + 1) :: place) := by
  refine ⟨h.left, h.right, h.ne, ?_⟩
  rintro (_ | ⟨_ | earlier, rest⟩) hlt
  · rfl
  · exact hhead rest
  · refine h.before (earlier :: rest) ?_
    cases hlt with
    | cons hlt => exact .cons hlt
    | rel hlt => exact .rel (Nat.lt_of_succ_lt_succ hlt)

end FirstDifference

/-- Trees with the same shape, kinds, literals and names look the same everywhere. -/
theorem Node.Renamed.lookAt_eq {t u : ParseTree} {n m : Node} (h : Renamed t u id n m)
    (place : List Nat) : t.lookAt n place = u.lookAt m place := by
  induction place generalizing n m with
  | nil =>
    refine congrArg some (ParseTree.look_eq_iff.2 ⟨h.kind_eq, h.value_eq, fun hk => ?_,
      h.childCount_eq⟩)
    obtain ⟨name, hname, hname'⟩ := h.text hk
    exact hname.trans hname'.symm
  | cons index place ih =>
    have hrow {cs ds : List Node} (hcs : List.Forall₂ (Renamed t u id) cs ds) (index : Nat) :
        t.lookRow cs (index :: place) = u.lookRow ds (index :: place) := by
      induction hcs generalizing index with
      | nil => rfl
      | cons hcd _ ihrow =>
        cases index with
        | zero => exact ih hcd
        | succ index => exact ihrow index
    rw [ParseTree.lookAt_cons, ParseTree.lookAt_cons]
    exact hrow h.children index

/-! ### Descriptions -/

namespace ParseTree

/-- What is expected of a node itself. A symbol that the table has no name for is described by the
    empty name. -/
def heading (tree : ParseTree) (node : Node) : List Expectation :=
  match node.kind with
  | .number => [.number node.value]
  | .boolean => [.boolean (node.value = 1)]
  | .nil => [.nil]
  | .symbol => [.symbol ((tree.symbolText? node).getD "")]
  | kind => [.kind kind, .childCount node.childCount]

mutual

/-- What is expected of a node and of all below it. -/
def describe (tree : ParseTree) : Node → List Expectation
  | .mk kind value children =>
    tree.heading (.mk kind value children) ++ describeFrom tree 0 children

/-- What is expected of a row of children, the first of them at `index`. -/
def describeFrom (tree : ParseTree) (index : Nat) : List Node → List Expectation
  | [] => []
  | node :: rest => .child index (tree.describe node) :: describeFrom tree (index + 1) rest

end

/-- The expectations that describe a tree. -/
def description (tree : ParseTree) : List Expectation := tree.describe tree.root

end ParseTree

/-- A node of a leaf kind is childless, and a boolean is `0` or `1`. -/
structure Node.IsTidy (node : Node) : Prop where
  childless : node.kind.isLeaf = true → node.children = []
  truth : node.kind = .boolean → node.value = 0 ∨ node.value = 1

namespace ParseTree

variable {tree t u : ParseTree} {node n m : Node}

/-- A symbol has a name. -/
def Names (tree : ParseTree) (node : Node) : Prop :=
  node.kind = .symbol → ∃ name, tree.symbolText? node = some name

theorem Resolves.names {root : Node} (h : tree.Resolves root) (hnode : node ∈ root.preorder) :
    tree.Names node := by
  intro hk
  obtain ⟨name, hname⟩ := h.exists_symbolText hnode hk
  exact ⟨name, symbolText_eq_ok_iff.1 hname⟩

theorem heading_of_isLeaf_eq_false (h : node.kind.isLeaf = false) :
    tree.heading node = [.kind node.kind, .childCount node.childCount] := by
  cases hk : node.kind <;> simp_all [heading, Kind.isLeaf]

end ParseTree

/-! ### Messages -/

/-- A text begins with another. -/
def Text.StartsWith (start text : String) : Prop := ∃ rest, text = start ++ rest

theorem Text.startsWith_append (start rest : String) : StartsWith start (start ++ rest) :=
  ⟨rest, rfl⟩

theorem Text.StartsWith.append {start text : String} (h : StartsWith start text) (more : String) :
    StartsWith start (text ++ more) := by
  obtain ⟨rest, rfl⟩ := h
  exact ⟨rest ++ more, String.append_assoc⟩

/-- The message of a comparison begins with what is compared. -/
theorem Fault.startsWith_comparison {start what : String} (h : Text.StartsWith start what)
    (left right : String) : Text.StartsWith ("assertion `left == right` failed: " ++ start)
      (comparison what left right) := by
  obtain ⟨rest, rfl⟩ := h
  have hwhat : Text.StartsWith ("assertion `left == right` failed: " ++ start)
      ("assertion `left == right` failed: " ++ (start ++ rest)) := ⟨rest, String.append_assoc.symm⟩
  exact (((hwhat.append _).append _).append _).append _

/-- What was found at a node is compared with what was expected. -/
def Discrepancy.IsComparison : Discrepancy → Prop
  | kind .. | value .. | childCount .. | symbol .. => True
  | childKinds .. | noChild .. | unresolved .. => False

/-- The message of a comparison names the place. -/
theorem Mismatch.startsWith_message {m : Mismatch} (h : m.what.IsComparison) :
    Text.StartsWith ("assertion `left == right` failed: " ++ (place m.path ++ ": expected "))
      m.message := by
  obtain ⟨path, what⟩ := m
  have hplace (more : String) :
      Text.StartsWith (place path ++ ": expected ") (place path ++ (": expected " ++ more)) :=
    ⟨more, String.append_assoc.symm⟩
  cases what with
  | kind expected found =>
    exact Fault.startsWith_comparison (((Text.startsWith_append _ _).append _).append _) _ _
  | value expected found =>
    exact Fault.startsWith_comparison ((((hplace "value ").append _).append _).append _) _ _
  | childCount expected found =>
    exact Fault.startsWith_comparison (((Text.startsWith_append _ _).append _).append _) _ _
  | symbol expected found =>
    exact Fault.startsWith_comparison ((((hplace "symbol ").append _).append _).append _) _ _
  | _ => cases h

namespace Expectation

/-! ### Checks of one node -/

variable {P Q : Prop} {a b : Except Discrepancy Unit} {x y : Except Mismatch Unit}
  {path : List Nat} {t u : ParseTree} {node n m : Node}

/-- A check passes exactly under a condition, and ends in a comparison otherwise. -/
def Decides (P : Prop) : Except Discrepancy Unit → Prop
  | .ok _ => P
  | .error d => ¬P ∧ d.IsComparison

theorem decides_ite [Decidable P] {d : Discrepancy} (hd : d.IsComparison) :
    Decides P (if P then .ok () else .error d) := by
  split
  · next h => exact h
  · next h => exact ⟨h, hd⟩

theorem Decides.and (ha : Decides P a) (hb : P → Decides Q b) :
    Decides (P ∧ Q) (a >>= fun _ => b) := by
  cases a with
  | error d => exact ⟨fun h => ha.1 h.1, ha.2⟩
  | ok _ =>
    have hq := hb ha
    cases b with
    | error d => exact ⟨fun h => hq.1 h.2, hq.2⟩
    | ok _ => exact ⟨ha, hq⟩

theorem decides_expectKind (kind : Kind) (node : Node) :
    Decides (node.kind = kind) (expectKind kind node) := decides_ite trivial

theorem decides_expectValue (value : Int64) (node : Node) :
    Decides (node.value = value) (expectValue value node) := decides_ite trivial

theorem decides_expectChildCount (count : Nat) (node : Node) :
    Decides (node.childCount = count) (expectChildCount count node) := decides_ite trivial

theorem decides_expectLeaf (kind : Kind) (node : Node) :
    Decides (node.kind = kind ∧ node.childCount = 0) (expectLeaf kind node) :=
  (decides_expectKind kind node).and fun _ => decides_expectChildCount 0 node

theorem decides_expectLiteral (kind : Kind) (value : Int64) (node : Node) :
    Decides (node.kind = kind ∧ node.value = value ∧ node.childCount = 0)
      (expectLiteral kind value node) :=
  (decides_expectKind kind node).and fun _ =>
    (decides_expectValue value node).and fun _ => decides_expectChildCount 0 node

theorem decides_expectName (h : ∃ name, u.symbolText? node = some name) (expected : String) :
    Decides (u.symbolText? node = some expected) (expectName expected u node) := by
  obtain ⟨found, hfound⟩ := h
  rw [expectName, ParseTree.symbolText_eq_ok_iff.2 hfound, hfound, Option.some.injEq]
  exact decides_ite trivial

theorem decides_expectSymbol (h : u.Names node) (expected : String) :
    Decides ((node.kind = .symbol ∧ node.childCount = 0) ∧ u.symbolText? node = some expected)
      (expectLeaf .symbol node >>= fun _ => expectName expected u node) :=
  (decides_expectLeaf .symbol node).and fun hleaf => decides_expectName (h hleaf.1) expected

/-- Checks pass only under a condition, and are mismatches at some places otherwise. -/
def Finds (P : Prop) (IsAt : List Nat → Prop) : Except Mismatch Unit → Prop
  | .ok _ => P
  | .error m => IsAt m.path ∧ m.what.IsComparison

variable {IsAt IsAt' : List Nat → Prop}

theorem Decides.locate (h : Decides P a) (hPQ : P ↔ Q) (path : List Nat) :
    Finds Q (fun p => p = path ∧ ¬Q) (locate path a) := by
  cases a with
  | ok _ => exact hPQ.1 h
  | error d => exact ⟨⟨rfl, fun hq => h.1 (hPQ.2 hq)⟩, h.2⟩

theorem Finds.bind (hx : Finds P IsAt x) (hy : P → Finds Q IsAt' y) :
    Finds (P ∧ Q) (fun p => IsAt p ∨ P ∧ IsAt' p) (x >>= fun _ => y) := by
  cases x with
  | error d => exact ⟨.inl hx.1, hx.2⟩
  | ok _ =>
    have hq := hy hx
    cases y with
    | error d => exact ⟨.inr ⟨hx, hq.1⟩, hq.2⟩
    | ok _ => exact ⟨hx, hq⟩

theorem Finds.mono (h : Finds P IsAt x) (hP : P → Q) (hIsAt : ∀ p, IsAt p → IsAt' p) :
    Finds Q IsAt' x := by
  cases x with
  | error d => exact ⟨hIsAt _ h.1, h.2⟩
  | ok _ => exact hP h

theorem checkAll_append (tree : ParseTree) (path : List Nat) (node : Node)
    (ds es : List Expectation) : checkAll tree path node (ds ++ es) =
      checkAll tree path node ds >>= fun _ => checkAll tree path node es := by
  induction ds with
  | nil =>
    rw [checkAll]
    rfl
  | cons d ds ih => rw [List.cons_append, checkAll, checkAll, ih, bind_assoc]

theorem checkAll_singleton (tree : ParseTree) (path : List Nat) (node : Node) (d : Expectation) :
    checkAll tree path node [d] = check tree path node d := by
  rw [checkAll]
  cases check tree path node d <;> rfl

/-- What is expected of a node itself is what it looks like. -/
theorem checkAll_heading (hn : n.IsTidy) (hname : t.Names n) (hm : u.Names m) (path : List Nat) :
    Finds (t.look n = u.look m) (fun p => p = path ∧ ¬t.look n = u.look m)
      (checkAll u path m (t.heading n)) := by
  cases hleaf : n.kind.isLeaf with
  | false =>
    have hkind : ¬(n.kind = .number ∨ n.kind = .boolean) ∧ n.kind ≠ .symbol := by
      cases hk : n.kind <;> simp_all [Kind.isLeaf]
    rw [ParseTree.heading_of_isLeaf_eq_false hleaf, checkAll, checkAll_singleton, check, check]
    refine (((decides_expectKind n.kind m).locate Iff.rfl path).bind fun _ =>
      (decides_expectChildCount n.childCount m).locate Iff.rfl path).mono ?_ ?_
    · rintro ⟨hk, hcount⟩
      exact ParseTree.look_eq_iff.2
        ⟨hk, fun h => absurd h hkind.1, fun h => absurd h hkind.2, hcount⟩
    · rintro p (⟨hp, hne⟩ | ⟨-, hp, hne⟩)
      · exact ⟨hp, fun h => hne (ParseTree.look_eq_iff.1 h).1⟩
      · exact ⟨hp, fun h => hne (ParseTree.look_eq_iff.1 h).2.2.2⟩
  | true =>
    have hcount : n.childCount = 0 := congrArg List.length (hn.childless hleaf)
    have hlook := ParseTree.look_eq_iff (t := t) (u := u) (n := n) (m := m)
    rw [hcount] at hlook
    cases hk : n.kind with
    | number =>
      simp only [ParseTree.heading, hk, checkAll_singleton, check]
      refine (decides_expectLiteral .number n.value m).locate ?_ path
      rw [hlook, hk]
      simp
    | boolean =>
      have hvalue : (if decide (n.value = 1) = true then 1 else 0) = n.value := by
        rcases hn.truth hk with h | h <;> rw [h] <;> rfl
      simp only [ParseTree.heading, hk, checkAll_singleton, check, hvalue]
      refine (decides_expectLiteral .boolean n.value m).locate ?_ path
      rw [hlook, hk]
      simp
    | nil =>
      simp only [ParseTree.heading, hk, checkAll_singleton, check]
      refine (decides_expectLeaf .nil m).locate ?_ path
      rw [hlook, hk]
      simp
    | symbol =>
      obtain ⟨name, hname⟩ := hname hk
      simp only [ParseTree.heading, hk, checkAll_singleton, check, hname, Option.getD_some]
      refine (decides_expectSymbol hm name).locate ?_ path
      rw [hlook, hk, hname]
      constructor
      · rintro ⟨⟨hkind, hleaf⟩, htext⟩
        exact ⟨hkind, by simp, fun _ => htext.symm, hleaf⟩
      · rintro ⟨hkind, -, htext, hleaf⟩
        exact ⟨⟨hkind, hleaf⟩, (htext rfl).symm⟩
    | _ => rw [hk] at hleaf; cases hleaf

/-! ### Checks of a tree -/

/-- What was said of a node holds of it and of a node that looks the same, if it holds below. -/
theorem renamed_of_look_eq (hname : t.Names n) (hlook : t.look n = u.look m)
    (hchildren : List.Forall₂ (Node.Renamed t u id) n.children m.children) :
    Node.Renamed t u id n m := by
  obtain ⟨hk, hvalue, htext, -⟩ := ParseTree.look_eq_iff.1 hlook
  refine .mk hk hvalue (fun h => ?_) hchildren
  obtain ⟨name, hn⟩ := hname h
  exact ⟨name, hn, (htext h).symm.trans hn⟩

mutual

/-- A description is met by the same tree, up to names in other places of the table, and leads to
    the first difference of any other. -/
theorem checkAll_describe : ∀ (n m : Node) (path : List Nat),
    (∀ node ∈ n.preorder, node.IsTidy ∧ t.Names node) → (∀ node ∈ m.preorder, u.Names node) →
      Finds (Node.Renamed t u id n m)
        (fun p => ∃ place, p = path ++ place ∧ FirstDifference (t.lookAt n) (u.lookAt m) place)
        (checkAll u path m (t.describe n))
  | .mk _ _ children, .mk _ _ children', path, hn, hm => by
    rw [Node.preorder, List.forall_mem_cons] at hn hm
    obtain ⟨⟨htidy, hname⟩, hbelow⟩ := hn
    rw [ParseTree.describe, checkAll_append]
    refine ((checkAll_heading htidy hname hm.1 path).bind fun hlook =>
      checkAll_describeFrom children children' 0 _ path (fun i => by rw [Nat.zero_add]; rfl)
        (ParseTree.look_eq_iff.1 hlook).2.2.2.symm hbelow hm.2).mono ?_ ?_
    · exact fun h => renamed_of_look_eq hname h.1 h.2
    · rintro p (⟨rfl, hne⟩ | ⟨hlook, index, place, rfl, hdiff⟩)
      · exact ⟨[], (List.append_nil p).symm, .root hne⟩
      · exact ⟨index :: place, by rw [Nat.zero_add], .below hlook hdiff⟩

/-- The same for a row of nodes, the first of them the child at `index`. -/
theorem checkAll_describeFrom : ∀ (cs ds : List Node) (index : Nat) (m : Node) (path : List Nat),
    (∀ i, m.children[index + i]? = ds[i]?) → cs.length = ds.length →
      (∀ node ∈ Node.preorders cs, node.IsTidy ∧ t.Names node) →
        (∀ node ∈ Node.preorders ds, u.Names node) →
          Finds (List.Forall₂ (Node.Renamed t u id) cs ds)
            (fun p => ∃ i place, p = path ++ (index + i) :: place ∧
              FirstDifference (t.lookRow cs) (u.lookRow ds) (i :: place))
            (checkAll u path m (t.describeFrom index cs))
  | [], [], _, _, _, _, _, _, _ => by
    rw [ParseTree.describeFrom, checkAll]
    exact .nil
  | c :: cs, d :: ds, index, m, path, hrow, hlength, hn, hm => by
    rw [Node.preorders, List.forall_mem_append] at hn hm
    have hd : m.children[index]? = some d := hrow 0
    have hrest (i : Nat) : m.children[index + 1 + i]? = ds[i]? := by
      rw [Nat.add_assoc, Nat.add_comm 1]
      exact hrow (i + 1)
    have hcheck : check u path m (.child index (t.describe c)) =
        checkAll u (path ++ [index]) d (t.describe c) := by rw [check, hd]
    rw [ParseTree.describeFrom, checkAll, hcheck]
    refine ((checkAll_describe c d (path ++ [index]) hn.1 hm.1).bind fun _ =>
      checkAll_describeFrom cs ds (index + 1) m path hrest (Nat.succ.inj hlength) hn.2 hm.2).mono
        (fun h => .cons h.1 h.2) ?_
    rintro p (⟨place, rfl, hdiff⟩ | ⟨hc, i, place, rfl, hdiff⟩)
    · exact ⟨0, place, List.append_assoc _ _ _, hdiff.head⟩
    · exact ⟨i + 1, place, by rw [Nat.add_assoc, Nat.add_comm 1], hdiff.tail hc.lookAt_eq⟩

end

end Expectation

/-- A description tells the tree, if its leaves are childless, its booleans are `0` or `1`, and its
    symbols have names. It is met by the trees with the same shape, kinds, literals and names,
    whatever their tables look like. From any other, it leads to the first node that looks
    different, and the message names the place of that node. -/
theorem ParseTree.expect_description (t u : ParseTree)
    (htidy : ∀ node ∈ t.root.preorder, node.IsTidy) (ht : t.Resolves t.root)
    (hu : u.Resolves u.root) :
    (u.expect t.description = .ok () ↔ Node.Renamed t u id t.root u.root) ∧
      ∀ m, u.expect t.description = .error m →
        FirstDifference (t.lookAt t.root) (u.lookAt u.root) m.path ∧
          Text.StartsWith
            ("assertion `left == right` failed: " ++ (Mismatch.place m.path ++ ": expected "))
            m.message := by
  have hfinds := Expectation.checkAll_describe (t := t) (u := u) t.root u.root []
    (fun node hnode => ⟨htidy node hnode, ht.names hnode⟩) fun node hnode => hu.names hnode
  rw [ParseTree.expect, ParseTree.description]
  cases hresult : Expectation.checkAll u [] u.root (t.describe t.root) with
  | ok _ =>
    rw [hresult] at hfinds
    exact ⟨⟨fun _ => hfinds, fun _ => rfl⟩, nofun⟩
  | error m =>
    rw [hresult] at hfinds
    obtain ⟨⟨place, hpath, hdiff⟩, hcomparison⟩ := hfinds
    obtain rfl : m.path = place := hpath
    refine ⟨⟨nofun, fun hsame => absurd (hsame.lookAt_eq _) hdiff.ne⟩, ?_⟩
    rintro _ ⟨⟩
    exact ⟨hdiff, Mismatch.startsWith_message hcomparison⟩

/-- The tree of `x = 5` is told from that of `x = 6`, where `x` has another index: the first
    difference is the second child of the root. -/
theorem ParseTree.expect_description_value :
    let t : ParseTree := ⟨.branch .assign [.leaf .symbol 0, .leaf .number 5], .ofList ["x"]⟩
    let u : ParseTree := ⟨.branch .assign [.leaf .symbol 1, .leaf .number 6], .ofList ["y", "x"]⟩
    u.expect t.description = .error ⟨[1], .value 5 6⟩ ∧ ¬Node.Renamed t u id t.root u.root ∧
      FirstDifference (t.lookAt t.root) (u.lookAt u.root) [1] := by
  intro t u
  have htidy : ∀ node ∈ t.root.preorder, node.IsTidy :=
    List.forall_mem_cons.2 ⟨⟨nofun, nofun⟩, List.forall_mem_cons.2 ⟨⟨fun _ => rfl, nofun⟩,
      List.forall_mem_singleton.2 ⟨fun _ => rfl, nofun⟩⟩⟩
  have ht : t.Resolves t.root := List.forall_mem_singleton.2 ⟨"x", rfl⟩
  have hu : u.Resolves u.root := List.forall_mem_singleton.2 ⟨"x", rfl⟩
  have hresult : u.expect t.description = .error ⟨[1], .value 5 6⟩ := rfl
  obtain ⟨hpasses, hfails⟩ := ParseTree.expect_description t u htidy ht hu
  refine ⟨hresult, fun h => ?_, (hfails _ hresult).1⟩
  cases hresult.symm.trans (hpasses.2 h)

end Arbor
