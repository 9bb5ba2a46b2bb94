import Arbor.Format.Tag
import Arbor.Proofs.Text.Quoted
import Mathlib.Data.List.Infix

/-!
# Trees on one line read back

A line that shows a tree is read from the front, with a list of the nodes that are still open, to
which finished nodes are added as children (`Tag.nodeFrom`, `Tag.behind`). The kind and the value of
a node end with a comma or a brace, and its name with the quote that closes it, so that what a name
holds is never taken for the end of anything. So every tree is read back from its line, whatever
follows it (`Tag.nodeFrom_chars`), and no two trees have the same line (`Tag.read?_text`).
-/

namespace Arbor

namespace Tag

/-! ### Reading -/

/-- Goes on the kind or the value of a node. -/
def isWordPart (c : Char) : Bool := c != ',' && c != '\x7d'

/-- Reads a word behind a label, and gives what follows. -/
def word? (label text : List Char) : Option (List Char × List Char) :=
  (text.dropPrefix? label).map fun text =>
    (text.takeWhile isWordPart, text.dropWhile isWordPart)

/-- Reads the name of a node, if it has one, and gives what follows. -/
def name? (text : List Char) : Option (Option String × List Char) :=
  match text.dropPrefix? ", symbol: ".toList with
  | none => some (none, text)
  | some text => (Text.unquote? text).map fun (name, text) => (some name, text)

/-- A node without its children. -/
structure Head where
  kind : Kind
  value : Int64
  symbol : Option String

/-- The node over these children. -/
def Head.node (head : Head) (children : List Snapshot) : Snapshot :=
  .mk head.kind head.value head.symbol children

/-- Reads a node up to its children, and gives what follows. -/
def head? (text : List Char) : Option (Head × List Char) := do
  let (kind, text) ← word? "\x7btype: ".toList text
  let (value, text) ← word? ", value: ".toList text
  let (symbol, text) ← name? text
  let kind ← Kind.ofName? (String.ofList kind)
  let value ← Integer.ofInt? (Integer.ofText value)
  return (⟨kind, value, symbol⟩, text)

theorem length_of_dropPrefix? {label text rest : List Char}
    (h : text.dropPrefix? label = some rest) : rest.length + label.length = text.length := by
  obtain ⟨front, rfl, hfront⟩ := List.dropPrefix?_eq_some_iff.1 h
  rw [beq_iff_eq] at hfront
  rw [List.length_append, hfront, Nat.add_comm]

theorem length_of_word? {label text word rest : List Char}
    (h : word? label text = some (word, rest)) : rest.length + label.length ≤ text.length := by
  obtain ⟨inner, hinner, heq⟩ := Option.map_eq_some_iff.1 h
  cases heq
  have hdrop := (List.dropWhile_sublist isWordPart (l := inner)).length_le
  have hlabel := length_of_dropPrefix? hinner
  omega

theorem length_of_name? {text rest : List Char} {name : Option String}
    (h : name? text = some (name, rest)) : rest.length ≤ text.length := by
  unfold name? at h
  split at h
  · cases h
    exact Nat.le_refl _
  · next inner hinner =>
    obtain ⟨⟨name, rest⟩, hname, heq⟩ := Option.map_eq_some_iff.1 h
    cases heq
    have hlabel := length_of_dropPrefix? hinner
    have hrest := Text.length_of_unquote? hname
    omega

theorem length_of_head? {text rest : List Char} {head : Head}
    (h : head? text = some (head, rest)) : rest.length < text.length := by
  simp only [head?, Option.bind_eq_bind, Option.bind_eq_some_iff] at h
  obtain ⟨⟨kind, afterKind⟩, hkind, ⟨value, afterValue⟩, hvalue, ⟨symbol, afterName⟩, hname, _, -, _,
    -, hresult⟩ := h
  cases hresult
  have hlabel : 0 < "\x7btype: ".toList.length := by decide
  have hkind := length_of_word? hkind
  have hvalue := length_of_word? hvalue
  have hname := length_of_name? hname
  dsimp only at hvalue hname ⊢
  omega

/-- A node that is still open: its head, and its children so far. -/
structure Open where
  head : Head
  children : List Snapshot

/-- The node with one more child. -/
def Open.add (o : Open) (s : Snapshot) : Open := { o with children := o.children ++ [s] }

/-- The node when it is closed. -/
def Open.node (o : Open) : Snapshot := o.head.node o.children

mutual

/-- Reads on where a node starts, inside the open nodes, the innermost first, up to the end of the
    outermost. -/
def nodeFrom (opens : List Open) (text : List Char) : Option (Snapshot × List Char) :=
  match _h : head? text with
  | none => none
  | some (head, rest) =>
    match _hc : rest.dropPrefix? ", children: [".toList with
    | some rest => nodeFrom (⟨head, []⟩ :: opens) rest
    | none =>
      match _hr : rest with
      | '\x7d' :: rest => behind (head.node []) opens rest
      | _ => none
termination_by text.length
decreasing_by
  · have := length_of_head? _h
    have := length_of_dropPrefix? _hc
    omega
  · have := length_of_head? _h
    rw [List.length_cons] at this
    omega

/-- Reads on behind a node, inside the open nodes. -/
def behind (s : Snapshot) : List Open → List Char → Option (Snapshot × List Char)
  | [], text => some (s, text)
  | o :: opens, ',' :: ' ' :: rest => nodeFrom (o.add s :: opens) rest
  | o :: opens, ']' :: '\x7d' :: rest => behind (o.add s).node opens rest
  | _ :: _, _ => none
termination_by _ text => text.length

end

/-- Reads the tree that a line begins with, and gives what follows it. -/
def read? (line : String) : Option (Snapshot × String) :=
  (nodeFrom [] line.toList).map fun (s, rest) => (s, String.ofList rest)

/-! ### Reading back -/

variable {kind : Kind} {value : Int64} {symbol : Option String} {rest : List Char}

/-- What can follow the head of a node: its children, or its end. -/
def FollowsHead (text : List Char) : Prop :=
  (∃ rest, text = '\x7d' :: rest) ∨ ∃ rest, text = ", children: [".toList ++ rest

theorem dropPrefix?_append (label rest : List Char) : (label ++ rest).dropPrefix? label = some rest :=
  List.dropPrefix?_eq_some_iff.2 ⟨label, rfl, beq_self_eq_true label⟩

/-- A word is read up to its end. -/
theorem word?_append {word : List Char} (hword : ∀ c ∈ word, isWordPart c = true)
    (hrest : ∀ c ∈ rest.head?, isWordPart c = false) (label : List Char) :
    word? label (label ++ (word ++ rest)) = some (word, rest) := by
  obtain ⟨htake, hdrop⟩ := Text.takeWhile_append_of_head? hword hrest
  rw [word?, dropPrefix?_append, Option.map_some, htake, hdrop]

theorem isWordPart_name (kind : Kind) : ∀ c ∈ kind.name.toList, isWordPart c = true := by
  have hall : kind.name.toList.all isWordPart = true := by cases kind <;> decide +kernel
  exact List.all_eq_true.1 hall

theorem isWordPart_text (value : Int64) : ∀ c ∈ (Integer.text value).toList, isWordPart c = true := by
  intro c hc
  rcases Integer.eq_or_isDigit_of_mem_toString hc with rfl | hdigit
  · rfl
  · rw [isWordPart, Bool.and_eq_true, bne_iff_ne, bne_iff_ne]
    constructor <;> rintro rfl <;> cases hdigit

/-! The labels differ within three characters. -/

theorem toList_children : ", children: [".toList = ',' :: ' ' :: 'c' :: "hildren: [".toList := by
  decide +kernel

theorem toList_symbol : ", symbol: ".toList = ',' :: ' ' :: 's' :: "ymbol: ".toList := by
  decide +kernel

theorem toList_value : ", value: ".toList = ',' :: " value: ".toList := by decide +kernel

theorem FollowsHead.dropPrefix?_symbol (h : FollowsHead rest) :
    rest.dropPrefix? ", symbol: ".toList = none := by
  rcases h with ⟨rest, rfl⟩ | ⟨rest, rfl⟩
  · rw [toList_symbol]; rfl
  · rw [toList_symbol, toList_children]; rfl

theorem FollowsHead.isWordPart_head? (h : FollowsHead rest) :
    ∀ c ∈ rest.head?, isWordPart c = false := by
  rcases h with ⟨rest, rfl⟩ | ⟨rest, rfl⟩
  · rintro c ⟨⟩; rfl
  · rw [toList_children]; rintro c ⟨⟩; rfl

theorem name_some (symbol : String) (rest : List Char) :
    name (some symbol) rest = ", symbol: ".toList ++ ((Text.quote symbol).toList ++ rest) := rfl

/-- The name of a node is read back, and so is that it has none. -/
theorem name?_name (symbol : Option String) (h : FollowsHead rest) :
    name? (name symbol rest) = some (symbol, rest) := by
  unfold name?
  cases symbol with
  | none =>
    change (match rest.dropPrefix? ", symbol: ".toList with | none => _ | some _ => _) = _
    rw [h.dropPrefix?_symbol]
    rfl
  | some symbol =>
    rw [name_some, dropPrefix?_append]
    simp only [Text.unquote?_quote, Option.map_some]

theorem isWordPart_head?_name (symbol : Option String) (h : FollowsHead rest) :
    ∀ c ∈ (name symbol rest).head?, isWordPart c = false := by
  cases symbol with
  | none => exact h.isWordPart_head?
  | some symbol =>
    rw [name_some, toList_symbol]
    rintro c ⟨⟩
    rfl

/-- A node is read back up to its children. -/
theorem head?_head (kind : Kind) (value : Int64) (symbol : Option String) (h : FollowsHead rest) :
    head? (head kind value (name symbol rest)) = some (⟨kind, value, symbol⟩, rest) := by
  -- The kind ends with the comma of the label behind it.
  have hcomma : ∀ c ∈ (", value: ".toList ++ ((Integer.text value).toList ++ name symbol rest)).head?,
      isWordPart c = false := by
    rw [toList_value]
    rintro c ⟨⟩
    rfl
  have hvalue : Integer.ofInt? (Integer.ofText (Integer.text value).toList) = some value :=
    Integer.ofInt?_eq_some_iff.2 (Integer.ofText_toString value.toInt).symm
  unfold head? head
  rw [word?_append (isWordPart_name kind) hcomma]
  dsimp only [Option.bind_eq_bind, Option.bind_some]
  rw [word?_append (isWordPart_text value) (isWordPart_head?_name symbol h)]
  dsimp only [Option.bind_some]
  rw [name?_name symbol h]
  dsimp only [Option.bind_some]
  rw [String.ofList_toList, Kind.ofName?_name, hvalue]
  rfl

section

variable {text : List Char} {head : Head}

/-- A node with children is opened. -/
theorem nodeFrom_children (h : head? text = some (head, ", children: [".toList ++ rest))
    (opens : List Open) : nodeFrom opens text = nodeFrom (⟨head, []⟩ :: opens) rest := by
  rw [nodeFrom]
  split
  · next hnone => cases h.symm.trans hnone
  · next hsome =>
    cases h.symm.trans hsome
    split
    · next hinner =>
      cases (dropPrefix?_append _ _).symm.trans hinner
      rfl
    · next hinner => cases (dropPrefix?_append _ _).symm.trans hinner

/-- A node without children is finished. -/
theorem nodeFrom_end (h : head? text = some (head, '\x7d' :: rest)) (opens : List Open) :
    nodeFrom opens text = behind (head.node []) opens rest := by
  rw [nodeFrom]
  split
  · next hnone => cases h.symm.trans hnone
  · next hsome =>
    cases h.symm.trans hsome
    split
    · next hinner =>
      rw [toList_children] at hinner
      cases hinner
    · rfl

end

mutual

/-- A node is read back, and reading goes on behind it. -/
theorem nodeFrom_chars : ∀ (s : Snapshot) (opens : List Open) (rest : List Char),
    nodeFrom opens (chars s rest) = behind s opens rest
  | .mk kind value symbol [], opens, rest => by
    rw [chars]
    exact nodeFrom_end (head?_head kind value symbol (.inl ⟨rest, rfl⟩)) opens
  | .mk kind value symbol (first :: others), opens, rest => by
    rw [chars, nodeFrom_children (head?_head kind value symbol (.inr ⟨_, rfl⟩)),
      nodeFrom_chars first, behind_more others]
    rfl

/-- The nodes after one in a row of children are read back, and the node around them is finished. -/
theorem behind_more : ∀ (others : List Snapshot) (s : Snapshot) (o : Open) (opens : List Open)
    (rest : List Char),
    behind s (o :: opens) (more others (']' :: '\x7d' :: rest)) =
      behind (o.head.node (o.children ++ s :: others)) opens rest
  | [], s, o, opens, rest => by
    rw [more, behind]
    rfl
  | t :: others, s, o, opens, rest => by
    rw [more, behind, nodeFrom_chars t, behind_more others, Open.add, List.append_assoc]
    rfl

end

/-- A line of tags shows one tree only.

    A tree is read back from the text that shows it, whatever its shape and its values are and
    whatever its names hold, and whatever stands behind that text. So two trees with the same text,
    whether ended or not, are the same. -/
theorem read?_text (s : Snapshot) :
    (∀ rest, read? (String.ofList (chars s rest)) = some (s, String.ofList rest)) ∧
      read? (text s) = some (s, "\n") ∧
        (∀ s' rest rest', chars s rest = chars s' rest' ↔ s = s' ∧ rest = rest') ∧
          ∀ s', text s = text s' ↔ s = s' := by
  have hread : ∀ s rest, read? (String.ofList (chars s rest)) = some (s, String.ofList rest) := by
    intro s rest
    rw [read?, String.toList_ofList, nodeFrom_chars, behind]
    rfl
  have hchars : ∀ s' rest rest', chars s rest = chars s' rest' ↔ s = s' ∧ rest = rest' := by
    intro s' rest rest'
    constructor
    · intro h
      have h := (hread s rest).symm.trans ((congrArg (read? ∘ String.ofList) h).trans (hread s' rest'))
      rw [Option.some_inj, Prod.mk.injEq, String.ofList_inj] at h
      exact h
    · rintro ⟨rfl, rfl⟩
      rfl
  refine ⟨hread s, hread s ['\n'], hchars, fun s' => ?_⟩
  rw [text, text, String.ofList_inj, hchars]
  exact and_iff_left rfl

example : text (.mk .symbol 0 (some "\x7d, \"") []) =
    "\x7btype: Symbol, value: 0, symbol: \"\x7d, \\\"\"\x7d\n" := by decide +kernel

end Tag

end Arbor
