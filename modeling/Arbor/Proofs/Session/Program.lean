import Arbor.Proofs.Grammar.Shape
import Arbor.Proofs.Node.Walk
import Arbor.Proofs.Session.Limits

/-!
# Trees that sessions give

Whatever the limits of a session, a tree that it gives for a source is that of the program
which the source is a text of (`Session.exists_program_of_ok`). So what can be said of all
programs can be said of all these trees.

The bound on their height is one such thing. It is kept exactly where it leaves room for
any tree at all: no bound refuses a lone leaf (`Session.depth_le_maxDepth_iff`).
-/

namespace Arbor

/-! ### The program of a source -/

/-- The tree of a program with the table of its names. -/
def Program.tree (p : Program) (capacity : Option Nat) : ParseTree :=
  ⟨p.node, p.names.toArray, capacity⟩

namespace Program.IsReadFrom

variable {p q : Program} {b : Bounds} {source : ByteArray} {text : String}

theorem scan_eq (hp : p.IsReadFrom b text.toUTF8) : Token.scan text = .ok p.tokens := by
  obtain ⟨⟨text', ht, hscan⟩, -⟩ := hp
  rwa [← String.toByteArray_inj.1 ht]

/-- A source is the text of one program at most. -/
theorem unique (hp : p.IsReadFrom b source) (hq : q.IsReadFrom b source) : p = q := by
  obtain ⟨⟨text, rfl, hscan⟩, -⟩ := hp
  exact Program.tokens_inj (Except.ok.inj (hscan.symm.trans hq.scan_eq))

/-- A program has no more names than its text has bytes. -/
theorem length_names_le (hp : p.IsReadFrom b text.toUTF8) : p.names.length ≤ text.utf8ByteSize :=
  Nat.le_trans (List.length_filterMap_le _ _) (Token.length_le_of_scan hp.scan_eq)

/-- The tokens of a program that some text holds are words. -/
theorem isWord (hp : p.IsReadFrom b source) : ∀ t ∈ p.tokens, t.IsWord := by
  obtain ⟨⟨text, -, hscan⟩, -⟩ := hp
  exact Token.isWord_of_scan hscan

end Program.IsReadFrom

/-! ### Trees that sessions give -/

namespace Session

/-- A session runs an engine as a new one with the bounds of its workspace does. -/
theorem result_parse_eq_new (s : Session) (engine : Engine) (source : ByteArray) :
    (s.parse engine source).result = ((new s.workspace.limits).parse engine source).result := rfl

/-- A tree that comes of a source is that of its program, and its table holds the names. -/
theorem exists_program_of_ok {s : Session} {b : Bounds} {source : ByteArray} {tree : ParseTree}
    (h : (s.parse (.ofGrammar b) source).result = .ok tree) :
    ∃ p : Program, p.IsReadFrom b source ∧ ∃ capacity, tree = p.tree capacity := by
  obtain ⟨hok, herror⟩ := result_parse_unbounded [] b source
  have hcurb := result_parse_curb s.workspace.limits [] [] b source
  rw [result_parse_eq_new] at h
  rw [Limits.curb] at hcurb
  split at hcurb
  · cases hcurb.symm.trans h
  · by_cases hp : ∃ p : Program, p.IsReadFrom b source
    · obtain ⟨p, hp⟩ := hp
      rw [hok p hp] at hcurb
      exact ⟨p, hp, _, Except.ok.inj (h.symm.trans hcurb)⟩
    · rw [herror hp] at hcurb
      cases hcurb.symm.trans h

end Session

/-! ### The bound on heights -/

namespace Node

/-- A tree that fits a bound is a leaf, or no taller than the bound. -/
theorem Fits.isLeaf_or_height_le {bound : Nat} {root : Node} (h : root.Fits bound) :
    root.isLeaf = true ∨ root.height ≤ bound := by
  by_cases hc : root.children = []
  · exact .inl (List.isEmpty_iff.2 hc)
  · exact .inr (h root root.mem_preorder_self hc)

theorem height_of_isLeaf {root : Node} (h : root.isLeaf = true) : root.height = 1 := by
  rw [height_eq, List.isEmpty_iff.1 h, heights]

end Node

namespace Session

/-- A tree that comes of a source keeps the bound of the grammar on heights if and only if the
    bound is not zero. For only reductions are refused, so a tree is a leaf or keeps the bound. -/
theorem depth_le_maxDepth_iff {limits : Limits} {uses : List Use} {b : Bounds}
    {source : ByteArray} {tree : ParseTree}
    (h : (((new limits).after uses).parse (.ofGrammar b) source).result = .ok tree) :
    (tree.root.depth ≤ b.maxDepth ↔ 0 < b.maxDepth) ∧
      (tree.root.isLeaf = true ∨ tree.root.depth ≤ b.maxDepth) := by
  obtain ⟨p, ⟨-, -, hfits⟩, capacity, rfl⟩ := exists_program_of_ok h
  have hpos : 1 ≤ p.node.height := by
    rw [Node.height_eq]
    exact Nat.le_add_right 1 _
  rw [Program.tree, Node.depth_eq_height]
  rcases hfits.isLeaf_or_height_le with hleaf | hle
  · have hone : p.node.height = 1 := Node.height_of_isLeaf hleaf
    exact ⟨by rw [hone, Nat.succ_le_iff], .inl hleaf⟩
  · exact ⟨iff_of_true hle (Nat.lt_of_lt_of_le hpos hle), .inr hle⟩

/-- A sum fits the bound that its height is. -/
theorem depth_le_maxDepth_sum :
    let result := ((new {}).parse (.ofGrammar ⟨0, 2⟩) "1 + 2".toUTF8).result
    let root : Node := .branch .add [.leaf .number 1, .leaf .number 2]
    result = .ok ⟨root, #[], some 1024⟩ ∧ root.depth ≤ 2 := by
  have hscript : Script.ofSource ⟨0, 2⟩ "1 + 2".toUTF8 =
      [.pushNumber 1, .pushNumber 2, .reduce .add 2] := by decide +kernel
  have hresult : ((new {}).parse (.ofGrammar ⟨0, 2⟩) "1 + 2".toUTF8).result =
      .ok ⟨.branch .add [.leaf .number 1, .leaf .number 2], #[], some 1024⟩ := by
    refine (exists_run_ofGrammar {} [] ⟨0, 2⟩ "1 + 2".toUTF8).1.trans ?_
    rw [hscript]
    rfl
  have hdepth := (@depth_le_maxDepth_iff {} [] _ _ _ hresult).1
  exact ⟨hresult, hdepth.2 Nat.two_pos⟩

/-- Under the bound zero, a literal still gives a tree, and that has a level. -/
theorem depth_of_literal_exceeds_zero :
    ∃ tree, ((new {}).parse (.ofGrammar ⟨256, 0⟩) "1".toUTF8).result = .ok tree ∧
      ¬tree.root.depth ≤ 0 := by
  have hscript : Script.ofSource ⟨256, 0⟩ "1".toUTF8 = [.pushNumber 1] := by decide +kernel
  refine ⟨⟨.leaf .number 1, #[], some 1024⟩, ?_, ?_⟩
  · refine (exists_run_ofGrammar {} [] ⟨256, 0⟩ "1".toUTF8).1.trans ?_
    rw [hscript]
    rfl
  · rw [Node.depth_eq_height]
    decide +kernel

end Session

end Arbor
