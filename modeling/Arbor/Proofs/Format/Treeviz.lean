import Mathlib.Data.List.Infix
import Arbor.Format.Treeviz
import Arbor.Proofs.Snapshot.Place
import Arbor.Proofs.Text.Lines
import Arbor.Proofs.Text.Numeral

/-!
# Drawings show the tree

A drawing has a line for every node, in pre-order, and the line begins with what the places on the
way to the node tell: a rail for every ancestor below the root, and the joint of the node itself
(`Treeviz.mark`, `Treeviz.lines_eq`).

Two drawings are read side by side from the top. What two lines begin with tells whether both nodes
are the last of their siblings. Where the rails of the siblings end, their parents have no
more children, since what follows stands further out (`Treeviz.Outside`). So equal drawings are of
trees that have the same shape, and the same kinds and labels at every place
(`Treeviz.branch_append_eq_iff`, `Treeviz.lines_eq_iff`).

A name with a line end in it would look like more lines. Without such names, the lines are those
that the text of the drawing is cut into (`Treeviz.text_shows_tree`).
-/

namespace Arbor

namespace Treeviz

/-! ### What lines begin with -/

/-- The rails that pass below a place: for every node on the way to it, but not for the root, a bar
    if a sibling stands behind that node. -/
def rails (s : Snapshot) (place : List Nat) : List Char :=
  place.inits.tail.flatMap fun above => if s.hasLater above then ['│', ' '] else [' ', ' ']

/-- What the line of a place begins with: the rails that pass below its parent, and a branching if
    a sibling stands behind it, or else a corner. -/
def mark (s : Snapshot) (place : List Nat) : List Char :=
  if place = [] then []
  else rails s place.dropLast ++
    ((if s.hasLater place then ['├', '─'] else ['└', '─']) ++ [' '])

variable {showValues : Bool}

theorem rails_concat (s : Snapshot) (place : List Nat) (index : Nat) :
    rails s (place ++ [index]) = rails s place ++ rail (!s.hasLater (place ++ [index])) := by
  have hinits : (place ++ [index]).inits.tail = place.inits.tail ++ [place ++ [index]] := by
    rw [List.inits_append, List.tail_append_of_ne_nil]
    · rfl
    · exact List.ne_nil_of_length_pos (by simp)
  rw [rails, hinits, List.flatMap_append, List.flatMap_singleton, rails, rail]
  cases s.hasLater (place ++ [index]) <;> rfl

theorem mark_concat (s : Snapshot) (place : List Nat) (index : Nat) :
    mark s (place ++ [index]) = rails s place ++ (joint (!s.hasLater (place ++ [index])) ++ [' ']) := by
  rw [mark, if_neg (List.append_ne_nil_of_right_ne_nil _ (List.cons_ne_nil _ _)),
    List.dropLast_concat, joint]
  cases s.hasLater (place ++ [index]) <;> rfl

mutual

/-- The lines of a node below the root and of all below it. -/
theorem branch_eq (root : Snapshot) : ∀ (t : Snapshot) (place : List Nat) (index : Nat),
    root.at? (place ++ [index]) = some t →
      branch showValues (rails root place) (!root.hasLater (place ++ [index])) t =
        t.placed.map fun p => mark root (place ++ index :: p.1) ++ caption showValues p.2
  | .mk kind value symbol children, place, index, ht => by
    have hrow : ∀ i, root.at? (place ++ [index] ++ [0 + i]) = children[i]? := by
      intro i
      rw [Nat.zero_add]
      exact Snapshot.at?_concat ht i
    rw [branch, Snapshot.placed, List.map_cons, ← rails_concat, branches_eq root children _ 0 hrow]
    dsimp only
    rw [mark_concat]
    simp only [List.append_assoc, List.singleton_append]

/-- The lines of a row of siblings and of all below them. -/
theorem branches_eq (root : Snapshot) : ∀ (row : List Snapshot) (place : List Nat) (start : Nat),
    (∀ index, root.at? (place ++ [start + index]) = row[index]?) →
      branches showValues (rails root place) row =
        (Snapshot.placedFrom start row).map
          fun p => mark root (place ++ p.1) ++ caption showValues p.2
  | [], _, _, _ => rfl
  | s :: rest, place, start, hrow => by
    have hlast : rest.isEmpty = !root.hasLater (place ++ [start]) := by
      rw [Snapshot.hasLater_concat, hrow 1]
      cases rest <;> rfl
    have hrest : ∀ index, root.at? (place ++ [start + 1 + index]) = rest[index]? := by
      intro index
      rw [Nat.add_assoc, Nat.add_comm 1, hrow]
      rfl
    rw [branches, Snapshot.placedFrom, List.map_append, List.map_map, hlast,
      branch_eq root s place start (hrow 0), branches_eq root rest place (start + 1) hrest]
    rfl

end

/-- The lines of a drawing are those of the nodes in pre-order. -/
theorem lines_eq (showValues : Bool) (s : Snapshot) :
    lines showValues s = s.placed.map fun p => mark s p.1 ++ caption showValues p.2 := by
  have hrow : ∀ index, s.at? ([] ++ [0 + index]) = s.children[index]? := by
    intro index
    rw [Nat.zero_add]
    exact Snapshot.at?_concat rfl index
  rw [lines, ← show rails s [] = [] from rfl, branches_eq s s.children [] 0 hrow]
  cases s
  rfl

/-! ### Reading two drawings -/

/-- What a line shows of its node. -/
def face (showValues : Bool) (t : Snapshot) : Kind × String := (t.kind, t.label showValues)

/-- Both trees have nodes at the same places, and these are of the same kind and have the same
    label. -/
def Alike (showValues : Bool) (s s' : Snapshot) : Prop :=
  ∀ place, (s.at? place).map (face showValues) = (s'.at? place).map (face showValues)

/-- The trees of both rows are alike, one by one. -/
def AreAlike (showValues : Bool) (row row' : List Snapshot) : Prop :=
  ∀ (index : Nat) (place : List Nat),
    (row[index]?.bind fun s => (s.at? place).map (face showValues)) =
      row'[index]?.bind fun s => (s.at? place).map (face showValues)

/-- After the lines that begin with some rails, the next line does not. -/
def Outside (rails : List Char) (rest : List (List Char)) : Prop :=
  ∀ line ∈ rest.head?, ¬rails <+: line

variable {s s' : Snapshot} {row row' : List Snapshot} {rails : List Char} {last last' : Bool}
  {rest rest' : List (List Char)}

theorem alike_iff : Alike showValues s s' ↔
    face showValues s = face showValues s' ∧ AreAlike showValues s.children s'.children := by
  have hbelow (t : Snapshot) (index : Nat) (place : List Nat) :
      (t.at? (index :: place)).map (face showValues) =
        t.children[index]?.bind fun child => (child.at? place).map (face showValues) := by
    rw [Snapshot.at?, Option.map_bind]
    rfl
  constructor
  · intro h
    refine ⟨Option.some.inj (h []), fun index place => ?_⟩
    rw [← hbelow, ← hbelow, h]
  · rintro ⟨hroot, hchildren⟩ place
    cases place with
    | nil => exact congrArg some hroot
    | cons index place => rw [hbelow, hbelow, hchildren]

theorem areAlike_cons_iff : AreAlike showValues (s :: row) (s' :: row') ↔
    Alike showValues s s' ∧ AreAlike showValues row row' := by
  constructor
  · intro h
    exact ⟨h 0, fun index => h (index + 1)⟩
  · rintro ⟨hfirst, hrest⟩ index
    cases index with
    | zero => exact hfirst
    | succ index => exact hrest index

theorem AreAlike.isEmpty_eq (h : AreAlike showValues row row') : row.isEmpty = row'.isEmpty := by
  have hfirst := h 0 []
  cases row <;> cases row' <;> first | rfl | cases hfirst

/-- The sign of a kind is that of no other. -/
theorem find?_icon (kind : Kind) : Kind.all.find? (icon · == icon kind) = some kind := by
  cases kind <;> decide

theorem caption_eq_iff :
    caption showValues s = caption showValues s' ↔ face showValues s = face showValues s' := by
  have hicon : icon s.kind = icon s'.kind ↔ s.kind = s'.kind := by
    constructor
    · intro h
      exact Option.some.inj ((find?_icon s.kind).symm.trans (h ▸ find?_icon s'.kind))
    · exact congrArg icon
  simp [caption, face, hicon, String.toList_inj]

/-- Lines with the same rails differ in their joint, their kind or their label. -/
theorem line_eq_iff : rails ++ joint last ++ ' ' :: caption showValues s =
    rails ++ joint last' ++ ' ' :: caption showValues s' ↔
      last = last' ∧ face showValues s = face showValues s' := by
  rw [List.append_assoc, List.append_assoc, List.append_cancel_left_eq, ← caption_eq_iff]
  cases last <;> cases last' <;> simp [joint]

/-- A row of siblings begins with a line that goes on with a joint after the rails. -/
theorem exists_branches_cons (rails : List Char) (s : Snapshot) (row : List Snapshot) :
    ∃ last line more, branches showValues rails (s :: row) = (rails ++ (joint last ++ line)) :: more := by
  cases s with
  | mk kind value symbol children =>
    rw [branches, branch]
    exact ⟨_, _, _, by rw [List.append_assoc, List.cons_append]⟩

theorem not_outside_branches (rails : List Char) (s : Snapshot) (row : List Snapshot) :
    ¬Outside rails (branches showValues rails (s :: row) ++ rest) := by
  intro h
  obtain ⟨last, line, more, hlines⟩ := @exists_branches_cons showValues rails s row
  rw [hlines] at h
  exact h _ rfl (List.prefix_append _ _)

/-- The siblings behind a node stand outside of what is below it. -/
theorem Outside.branches (h : Outside rails rest) (last : Bool) (row : List Snapshot) :
    Outside (rails ++ rail last) (branches showValues rails row ++ rest) := by
  intro head hhead hprefix
  cases row with
  | nil => exact h head hhead ((List.prefix_append _ _).trans hprefix)
  | cons s row =>
    obtain ⟨last', line, more, hlines⟩ := @exists_branches_cons showValues rails s row
    rw [hlines] at hhead
    cases hhead
    rw [List.prefix_append_right_inj] at hprefix
    cases last <;> cases last' <;> simp [rail, joint] at hprefix

mutual

/-- The lines of a node and all below it tell whether it is the last child, what it looks like, and
    where they end. -/
theorem branch_append_eq_iff : ∀ {s s' : Snapshot} {rails : List Char} {last last' : Bool}
    {rest rest' : List (List Char)}, Outside (rails ++ rail last) rest →
      Outside (rails ++ rail last') rest' →
        (branch showValues rails last s ++ rest = branch showValues rails last' s' ++ rest' ↔
          last = last' ∧ Alike showValues s s' ∧ rest = rest')
  | .mk kind value symbol children, .mk kind' value' symbol' children', rails, last, last', rest,
      rest', h, h' => by
    rw [branch, branch, List.cons_append, List.cons_append, List.cons.injEq, line_eq_iff, alike_iff]
    constructor
    · rintro ⟨⟨rfl, hnode⟩, hbelow⟩
      obtain ⟨hchildren, hrest⟩ := (branches_append_eq_iff h h').1 hbelow
      exact ⟨rfl, ⟨hnode, hchildren⟩, hrest⟩
    · rintro ⟨rfl, ⟨hnode, hchildren⟩, hrest⟩
      exact ⟨⟨rfl, hnode⟩, (branches_append_eq_iff h h').2 ⟨hchildren, hrest⟩⟩

/-- The lines of a row of siblings and all below them tell what they look like, and where they
    end. -/
theorem branches_append_eq_iff : ∀ {row row' : List Snapshot} {rails : List Char}
    {rest rest' : List (List Char)}, Outside rails rest → Outside rails rest' →
      (branches showValues rails row ++ rest = branches showValues rails row' ++ rest' ↔
        AreAlike showValues row row' ∧ rest = rest')
  | [], [], _, _, _, _, _ => by
    rw [branches, List.nil_append, List.nil_append]
    exact (and_iff_right fun _ _ => rfl).symm
  | [], s' :: row', rails, rest, rest', h, _ => by
    refine iff_of_false (fun heq => ?_) fun halike => nomatch halike.1.isEmpty_eq
    rw [branches, List.nil_append] at heq
    exact not_outside_branches rails s' row' (heq ▸ h)
  | s :: row, [], rails, rest, rest', _, h' => by
    refine iff_of_false (fun heq => ?_) fun halike => nomatch halike.1.isEmpty_eq
    rw [branches.eq_def showValues rails [], List.nil_append] at heq
    exact not_outside_branches rails s row (heq ▸ h')
  | s :: row, s' :: row', rails, rest, rest', h, h' => by
    rw [branches, branches, List.append_assoc, List.append_assoc,
      branch_append_eq_iff (h.branches _ row) (h'.branches _ row'),
      branches_append_eq_iff h h', areAlike_cons_iff]
    constructor
    · rintro ⟨-, hfirst, hrow, hrest⟩
      exact ⟨⟨hfirst, hrow⟩, hrest⟩
    · rintro ⟨⟨hfirst, hrow⟩, hrest⟩
      exact ⟨hrow.isEmpty_eq, hfirst, hrow, hrest⟩

end

/-- Drawings have the same lines if and only if the trees look the same. -/
theorem lines_eq_iff : lines showValues s = lines showValues s' ↔ Alike showValues s s' := by
  have hend : Outside [] [] := nofun
  have hbelow := @branches_append_eq_iff showValues s.children s'.children [] [] [] hend hend
  rw [List.append_nil, List.append_nil, and_iff_left rfl] at hbelow
  rw [lines, lines, List.cons.injEq, caption_eq_iff, hbelow, alike_iff]

/-! ### The text of a drawing -/

/-- No name in the tree goes over several lines. -/
def HasPlainNames (s : Snapshot) : Prop :=
  ∀ t ∈ s.preorder, ∀ name ∈ t.symbol, '\n' ∉ name.toList

instance (s : Snapshot) : Decidable (HasPlainNames s) :=
  inferInstanceAs (Decidable (∀ t ∈ s.preorder, ∀ name ∈ t.symbol, '\n' ∉ name.toList))

theorem newline_notMem_text (value : Int64) : '\n' ∉ (Integer.text value).toList := by
  intro h
  rcases Integer.eq_or_isDigit_of_mem_toString h with h | h <;> cases h

theorem newline_notMem_name (kind : Kind) : '\n' ∉ kind.name.toList := by
  cases kind <;> decide +kernel

theorem newline_notMem_label {t : Snapshot} (h : ∀ name ∈ t.symbol, '\n' ∉ name.toList) :
    '\n' ∉ (t.label showValues).toList := by
  -- Between a kind and what a leaf holds there are blanks and signs only.
  have happend {a b : String} (ha : '\n' ∉ a.toList) (hb : '\n' ∉ b.toList) :
      '\n' ∉ (a ++ b).toList := by
    rw [String.toList_append, List.mem_append, not_or]
    exact ⟨ha, hb⟩
  unfold Snapshot.label
  split
  · split
    · exact happend (by decide +kernel) (newline_notMem_text _)
    · split <;> decide +kernel
    · split
      · next name hname => exact happend (by decide +kernel) (h name hname)
      · exact happend (by decide +kernel) (newline_notMem_text _)
    · exact newline_notMem_name _
  · exact newline_notMem_name _

theorem newline_notMem_mark (s : Snapshot) (place : List Nat) : '\n' ∉ mark s place := by
  have hrails : '\n' ∉ rails s place.dropLast := by
    rw [rails, List.mem_flatMap]
    rintro ⟨above, -, h⟩
    split at h <;> revert h <;> decide
  unfold mark
  split
  · exact List.not_mem_nil
  · rw [List.mem_append, not_or]
    refine ⟨hrails, ?_⟩
    split <;> decide

theorem newline_notMem_lines (h : HasPlainNames s) : ∀ line ∈ lines showValues s, '\n' ∉ line := by
  intro line hline
  rw [lines_eq] at hline
  obtain ⟨⟨place, t⟩, hmem, rfl⟩ := List.mem_map.1 hline
  have ht : t ∈ s.preorder := by
    rw [← Snapshot.map_snd_placed]
    exact List.mem_map_of_mem hmem
  have hicon : icon t.kind ≠ '\n' := by cases t.kind <;> decide
  rw [List.mem_append, not_or, caption, List.mem_cons, not_or, List.mem_cons, not_or]
  exact ⟨newline_notMem_mark s place, hicon.symm, by decide, newline_notMem_label (h t ht)⟩

/-- Drawings show the tree.

    If no name has a line end, the text of a drawing is cut into a line for every node, in
    pre-order, each with its line end. The line of the root shows its sign and its label. In front
    of those, the line of any other node has a rail for every ancestor below the root, which is a
    bar exactly if a sibling stands behind the ancestor, and then a corner or, exactly if a sibling
    stands behind the node, a branching. Two such trees have the same drawing if and only if they
    have nodes at the same places, of the same kinds and with the same labels. -/
theorem text_shows_tree (showValues : Bool) (h : HasPlainNames s) :
    (Text.lines (text showValues s).toList = s.placed.map fun (place, t) =>
        mark s place ++ icon t.kind :: ' ' :: (t.label showValues).toList ++ ['\n']) ∧
      s.placed.map (·.2) = s.preorder ∧
        (∀ place t, (place, t) ∈ s.placed ↔ s.at? place = some t) ∧
          ∀ s', HasPlainNames s' →
            (text showValues s = text showValues s' ↔ Alike showValues s s') := by
  have hcut {t : Snapshot} (ht : HasPlainNames t) :
      Text.lines (text showValues t).toList = (lines showValues t).map (· ++ ['\n']) := by
    rw [text, String.toList_ofList, Text.lines_flatMap (newline_notMem_lines ht)]
  refine ⟨?_, s.map_snd_placed, fun place t => Snapshot.mem_placed, fun s' h' => ?_⟩
  · rw [hcut h, lines_eq, List.map_map]
    rfl
  · rw [← lines_eq_iff]
    constructor
    · intro htext
      have hlines := (hcut h).symm.trans ((congrArg (Text.lines ·.toList) htext).trans (hcut h'))
      exact List.map_injective_iff.2 (List.append_left_injective _) hlines
    · intro hlines
      rw [text, text, hlines]

/-- An inner node that is not the last child has a bar passing below it. Another tree with the same
    nodes in the same order, one of them further out, has another drawing. -/
theorem text_shows_tree_bar :
    let s : Snapshot :=
      .mk .compare (-1) none
        [.mk .inverseCompare (-1) none [.mk .symbol 0 (some "a") [], .mk .symbol 7 none []],
          .mk .boolean 0 none []]
    let s' : Snapshot :=
      .mk .compare (-1) none
        [.mk .inverseCompare (-1) none [.mk .symbol 0 (some "a") []], .mk .symbol 7 none [],
          .mk .boolean 0 none []]
    HasPlainNames s ∧ HasPlainNames s' ∧
      Text.lines (text true s).toList =
        ["= Compare\n", "├─ ≠ InverseCompare\n", "│ ├─ ◦ Symbol a\n", "│ └─ ◦ Symbol #7\n",
          "└─ ? Boolean false\n"].map String.toList ∧
        text true s ≠ text true s' := by
  intro s s'
  have h : HasPlainNames s := by decide +kernel
  have h' : HasPlainNames s' := by decide +kernel
  obtain ⟨hlines, -, -, htext⟩ := text_shows_tree true h
  refine ⟨h, h', hlines.trans (by decide +kernel), fun heq => ?_⟩
  exact absurd ((htext s' h').1 heq [0, 1]) (by decide +kernel)

end Treeviz

end Arbor
