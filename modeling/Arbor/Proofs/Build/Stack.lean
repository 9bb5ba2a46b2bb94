import Arbor.Proofs.Engine.Calls
import Arbor.Proofs.Node.Postorder

/-!
# What building does to the stack

A call that builds puts exactly one node on top of the stack. The node takes the
trees that become its children off the stack, and its label can be read off the
call (`BuildStack.exists_of_perform`). A leaf takes none, so it needs room; the
capacity stays as it is.
-/

namespace Arbor

namespace BuildOp

/-- The label of the node that a call puts on the stack, when `next` is the next
    index of a name. -/
def label? (next : Nat) : BuildOp → Option Node.Label
  | pushLeaf kind value => some ⟨kind, value, 0⟩
  | pushNumber value => some ⟨.number, value, 0⟩
  | pushBoolean value => some ⟨.boolean, if value then 1 else 0, 0⟩
  | pushSymbol _ => some ⟨.symbol, Int64.ofNat next, 0⟩
  | pushNil => some ⟨.nil, Node.unused, 0⟩
  | reduce kind arity => some ⟨kind, Node.unused, arity⟩
  | setError => none

end BuildOp

namespace BuildStack

variable {stack s : BuildStack}

/-- A push needs room. -/
theorem push_eq_ok_iff {node : Node} :
    stack.push node = .ok s ↔
      (∀ capacity ∈ stack.capacity, stack.size < capacity) ∧ s = stack.cons node := by
  unfold push
  cases stack.capacity with
  | none => simp [eq_comm]
  | some capacity =>
    by_cases h : capacity ≤ stack.size
    · simp [h, Nat.not_lt.2 h]
    · simp [h, Nat.lt_of_not_le h, eq_comm]

/-- A push is refused only for want of room. -/
theorem push_eq_error_iff {node : Node} {v : Violation} :
    stack.push node = .error v ↔
      ∃ capacity ∈ stack.capacity, capacity ≤ stack.size ∧ v = .stackOverflow capacity := by
  unfold push
  cases stack.capacity with
  | none => simp
  | some capacity =>
    by_cases h : capacity ≤ stack.size
    · simp [h, eq_comm]
    · simp [h]

theorem pushLeaf_eq_ok_iff {kind : Kind} {value : Int64} :
    stack.pushLeaf kind value = .ok s ↔
      kind.isLeaf = true ∧ stack.push (.leaf kind value) = .ok s := by
  unfold pushLeaf
  split
  · next h => simp [h]
  · next h => simp [h]

theorem pushLeaf_eq_error_iff {kind : Kind} {value : Int64} {v : Violation} :
    stack.pushLeaf kind value = .error v ↔
      if kind.isLeaf = true then
        ∃ capacity ∈ stack.capacity, capacity ≤ stack.size ∧ v = .stackOverflow capacity
      else v = .notALeaf kind := by
  unfold pushLeaf
  split
  · exact push_eq_error_iff
  · simp [eq_comm]

theorem reduce_eq_ok_iff {kind : Kind} {arity : Nat} :
    stack.reduce kind arity = .ok s ↔
      (kind.isLeaf = true → arity = 0) ∧ arity ≤ stack.size ∧
        s.nodes = .branch kind (stack.nodes.take arity).reverse :: stack.nodes.drop arity ∧
          s.capacity = stack.capacity := by
  unfold reduce
  split
  · next h => simp [h.1, Nat.ne_of_gt h.2]
  · next h =>
    have hz : kind.isLeaf = true → arity = 0 := fun hk => Nat.eq_zero_of_not_pos fun ha => h ⟨hk, ha⟩
    split
    · next hs => simp [Nat.not_le.2 hs]
    · next hs =>
      constructor
      · rintro ⟨⟩
        exact ⟨hz, Nat.not_lt.1 hs, rfl, rfl⟩
      · rintro ⟨-, -, hn, hc⟩
        exact congrArg _ (ext hn.symm hc.symm)

/-- A reduction is refused for children of a leaf before it is for want of trees. -/
theorem reduce_eq_error_iff {kind : Kind} {arity : Nat} {v : Violation} :
    stack.reduce kind arity = .error v ↔
      if kind.isLeaf = true ∧ 0 < arity then v = .leafReduction kind arity
      else stack.size < arity ∧ v = .stackUnderflow kind arity stack.size := by
  unfold reduce
  split
  · simp [eq_comm]
  · split
    · next hs => simp [hs, eq_comm]
    · next hs => simp [hs]

/-- A reduction puts one tree in the place of its children, in the order they have, and leaves the
    trees below them. -/
theorem toList_of_reduce {kind : Kind} {arity : Nat} (h : stack.reduce kind arity = .ok s) :
    ∃ below children, children.length = arity ∧ stack.toList = below ++ children ∧
      s.toList = below ++ [.branch kind children] ∧ s.capacity = stack.capacity := by
  obtain ⟨-, harity, hnodes, hcapacity⟩ := reduce_eq_ok_iff.1 h
  rw [stack.size_eq] at harity
  refine ⟨(stack.nodes.drop arity).reverse, (stack.nodes.take arity).reverse, ?_, ?_, ?_, hcapacity⟩
  · rw [List.length_reverse, List.length_take, Nat.min_eq_left harity]
  · rw [toList, ← List.reverse_append, List.take_append_drop]
  · rw [toList, hnodes, List.reverse_cons]

theorem length_toList (stack : BuildStack) : stack.toList.length = stack.size := by
  rw [toList, List.length_reverse, stack.size_eq]

theorem size_of_reduce {kind : Kind} {arity : Nat} (h : stack.reduce kind arity = .ok s) :
    s.size + arity = stack.size + 1 := by
  obtain ⟨-, ha, hn, -⟩ := reduce_eq_ok_iff.1 h
  rw [s.size_eq, hn, List.length_cons, List.length_drop, ← stack.size_eq]
  omega

/-- A reduction to a branch needs as many trees as it asks for. -/
theorem exists_reduce {kind : Kind} {arity : Nat} (hk : kind.isLeaf = false)
    (ha : arity ≤ stack.size) : ∃ s, stack.reduce kind arity = .ok s := by
  simp [reduce, hk, Nat.not_lt.2 ha]

/-- A call that pushes a leaf, or reduces to a node. -/
theorem perform_leaf_or_reduce (stack : BuildStack) (next : Nat) {op : BuildOp}
    (hop : op ≠ .setError) :
    (∃ kind value, op.label? next = some ⟨kind, value, 0⟩ ∧
        stack.perform next op = stack.pushLeaf kind value) ∨
      ∃ kind arity, op = .reduce kind arity ∧ stack.perform next op = stack.reduce kind arity := by
  cases op with
  | setError => exact absurd rfl hop
  | reduce kind arity => exact .inr ⟨kind, arity, rfl, rfl⟩
  | _ => exact .inl ⟨_, _, rfl, rfl⟩

/-- A call that builds puts one node on top, over the trees it takes as children. -/
theorem exists_of_perform {next : Nat} {op : BuildOp} (hop : op ≠ .setError)
    (h : stack.perform next op = .ok s) :
    ∃ node rest, stack.nodes = node.children.reverse ++ rest ∧ s.nodes = node :: rest ∧
      s.capacity = stack.capacity ∧ op.label? next = some node.label ∧
        ((∀ n ∈ stack.nodes, n.Built) → node.Built) := by
  rcases perform_leaf_or_reduce stack next hop with
    ⟨kind, value, hl, hp⟩ | ⟨kind, arity, rfl, hp⟩
  · obtain ⟨hk, hs⟩ := pushLeaf_eq_ok_iff.1 (hp ▸ h)
    obtain ⟨-, rfl⟩ := push_eq_ok_iff.1 hs
    exact ⟨.leaf kind value, stack.nodes, rfl, rfl, rfl, hl, fun _ => .leaf value hk⟩
  · obtain ⟨hk, ha, hn, hc⟩ := reduce_eq_ok_iff.1 (hp ▸ h)
    rw [stack.size_eq] at ha
    refine ⟨.branch kind (stack.nodes.take arity).reverse, stack.nodes.drop arity, ?_, hn, hc, ?_, ?_⟩
    · rw [Node.branch, Node.children, List.reverse_reverse, List.take_append_drop]
    · simp [BuildOp.label?, Node.label, Node.branch, Node.kind, Node.value, Node.childCount,
        Node.children, Nat.min_eq_left ha]
    · intro hb
      cases hl : kind.isLeaf with
      | true =>
        rw [hk hl]
        exact .leaf _ hl
      | false => exact .branch hl fun n hn => hb n (List.mem_of_mem_take (List.mem_reverse.1 hn))

end BuildStack

end Arbor
