import Mathlib.Data.List.ModifyLast
import Arbor.Snapshot

/-!
# Places in a tree

A *place* is the way down to a node from the root: the position of a child, then of one of its
children, and so on. Trees of different content are compared place by place: they have the same
shape if nodes are at the same places of both.

`Snapshot.placed` lists the nodes in pre-order, each with its place. So every node is listed
(`Snapshot.map_snd_placed`), and it is where its place leads to (`Snapshot.mem_placed`).
-/

namespace Arbor

namespace Snapshot

/-- The node at a place. -/
def at? (s : Snapshot) : List Nat → Option Snapshot
  | [] => some s
  | index :: place => s.children[index]?.bind (·.at? place)

/-- A sibling stands behind the node at a place. -/
def hasLater (s : Snapshot) (place : List Nat) : Bool :=
  (s.at? (place.modifyLast (· + 1))).isSome

mutual

/-- The nodes in pre-order, with their places. -/
def placed : Snapshot → List (List Nat × Snapshot)
  | mk kind value symbol children =>
    ([], mk kind value symbol children) :: placedFrom 0 children

/-- The nodes of a row of siblings, the first of them at `index`. -/
def placedFrom (index : Nat) : List Snapshot → List (List Nat × Snapshot)
  | [] => []
  | s :: rest => s.placed.map (fun (place, t) => (index :: place, t)) ++ placedFrom (index + 1) rest

end

theorem at?_append (s : Snapshot) (place below : List Nat) :
    s.at? (place ++ below) = (s.at? place).bind (·.at? below) := by
  induction place generalizing s with
  | nil => rfl
  | cons index place ih =>
    rw [List.cons_append, at?, at?]
    cases s.children[index]? with
    | none => rfl
    | some child => exact ih child

/-- The node at the end of a place is a child of the one before it. -/
theorem at?_concat {s t : Snapshot} {place : List Nat} (h : s.at? place = some t) (index : Nat) :
    s.at? (place ++ [index]) = t.children[index]? := by
  rw [at?_append, h, Option.bind_some, at?]
  cases t.children[index]? <;> rfl

theorem hasLater_concat (s : Snapshot) (place : List Nat) (index : Nat) :
    s.hasLater (place ++ [index]) = (s.at? (place ++ [index + 1])).isSome := by
  rw [hasLater, List.modifyLast_concat]

mutual

theorem map_snd_placed : ∀ s : Snapshot, s.placed.map (·.2) = s.preorder
  | mk kind value symbol children => by
    rw [placed, preorder, List.map_cons, map_snd_placedFrom 0 children]

theorem map_snd_placedFrom : ∀ (index : Nat) (row : List Snapshot),
    (placedFrom index row).map (·.2) = preorders row
  | _, [] => rfl
  | index, s :: rest => by
    rw [placedFrom, preorders, List.map_append, List.map_map, map_snd_placedFrom (index + 1) rest,
      ← map_snd_placed s]
    rfl

end

mutual

/-- The nodes are listed with the places where they are. -/
theorem mem_placed : ∀ {s t : Snapshot} {place : List Nat},
    (place, t) ∈ s.placed ↔ s.at? place = some t
  | mk kind value symbol children, t, place => by
    rw [placed, List.mem_cons, mem_placedFrom]
    cases place with
    | nil => simp [at?, eq_comm]
    | cons index place => simp [at?, Snapshot.children, and_assoc]

theorem mem_placedFrom : ∀ {row : List Snapshot} {start : Nat} {t : Snapshot} {place : List Nat},
    (place, t) ∈ placedFrom start row ↔
      ∃ index below, place = (start + index) :: below ∧ row[index]?.bind (·.at? below) = some t
  | [], start, t, place => by simp [placedFrom]
  | s :: rest, start, t, place => by
    rw [placedFrom, List.mem_append, List.mem_map, mem_placedFrom]
    constructor
    · rintro (⟨⟨below, u⟩, hmem, heq⟩ | ⟨index, below, rfl, h⟩)
      · cases heq
        exact ⟨0, below, rfl, mem_placed.1 hmem⟩
      · exact ⟨index + 1, below, by rw [Nat.add_right_comm, Nat.add_assoc], h⟩
    · rintro ⟨_ | index, below, rfl, h⟩
      · exact .inl ⟨(below, t), mem_placed.2 h, rfl⟩
      · exact .inr ⟨index, below, by rw [Nat.add_right_comm, Nat.add_assoc], h⟩

end

end Snapshot

end Arbor
