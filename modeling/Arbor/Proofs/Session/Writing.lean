import Arbor.Proofs.Grammar.Writing
import Arbor.Proofs.Session.Program

/-!
# Reading what was written

A well-formed tree is written with as few parentheses as it needs, and a session that reads a
text of what was written gives the tree again, with the names that its symbols stand for. And
all trees that sessions give are well-formed (`Session.parse_write`).
-/

namespace Arbor

namespace Node

/-- A tree fits every bound that it is no taller than. -/
theorem fits_of_height_le {bound : Nat} {root : Node} (h : root.height ≤ bound) :
    root.Fits bound := fun _ hn _ => Nat.le_trans (height_le_of_mem_preorder hn) h

end Node

namespace Session

/-- Trees and what is written of them determine each other.

    Whatever text has the words that are written of a well-formed tree, and so the line of
    these words has them, an unbounded session gives for it this tree and its names, if the
    bounds of the grammar are no less than the height of the tree. And whatever tree any
    session gives is well-formed, with the names in its table. -/
theorem parse_write :
    (∀ (root : Node) (names : List String), root.IsWellFormed names →
      Token.scan (Token.line (root.write names)) = .ok (root.write names) ∧
        ∀ b : Bounds, root.height ≤ b.maxNesting → root.height ≤ b.maxDepth →
          ∀ text, Token.scan text = .ok (root.write names) → ∀ uses,
            (((new .unbounded).after uses).parse (.ofGrammar b) text.toUTF8).result =
              .ok ⟨root, .ofList names⟩) ∧
      ∀ limits uses b source tree,
        (((new limits).after uses).parse (.ofGrammar b) source).result = .ok tree →
          tree.root.IsWellFormed tree.symbols.entries.toList := by
  refine ⟨fun root names h => ?_, fun limits uses b source tree hresult => ?_⟩
  · obtain ⟨hnames, hspelled⟩ := h.write_spec
    refine ⟨Token.scan_line hspelled, fun b hn hd text hscan uses => ?_⟩
    obtain ⟨p, ht, rfl, hnesting⟩ := h.exists_program
    have hp : p.IsReadFrom b text.toUTF8 :=
      ⟨⟨text, rfl, ht ▸ hscan⟩, Nat.le_trans (Nat.le_of_lt hnesting) hn, Node.fits_of_height_le hd⟩
    have hpnames : p.names = names := (congrArg Token.names ht).trans hnames
    rw [← hpnames]
    exact (result_parse_unbounded uses b text.toUTF8).1 p hp
  · obtain ⟨p, hp, capacity, rfl⟩ := exists_program_of_ok hresult
    exact p.isWellFormed_node hp.isWord

/-- The tree of a product needs parentheses for a difference on its left. -/
theorem parse_write_product :
    let root : Node :=
      .branch .multiply [.branch .subtract [.leaf .symbol 0, .leaf .number 1], .leaf .symbol 1]
    root.IsWellFormed ["x", "y"] ∧
      root.write ["x", "y"] =
        [.leftParen, .ident "x", .minus, .number 1, .rightParen, .star, .ident "y"] ∧
      ((new .unbounded).parse (.ofGrammar {}) "(x - 1) * y".toUTF8).result =
        .ok ⟨root, .ofList ["x", "y"]⟩ := by
  intro root
  have hx : Token.IsName "x" := ⟨⟨'x', [], rfl, by decide, nofun⟩, by decide⟩
  have hy : Token.IsName "y" := ⟨⟨'y', [], rfl, by decide, nofun⟩, by decide⟩
  have hroot : root.IsWellFormed ["x", "y"] :=
    ⟨.expression (.pair .star (.pair .minus (.symbol 0) (.number (by decide))) (.symbol 1)), by
      decide, List.forall_mem_cons.2 ⟨hx, List.forall_mem_singleton.2 hy⟩⟩
  have hwrite : root.write ["x", "y"] =
      [.leftParen, .ident "x", .minus, .number 1, .rightParen, .star, .ident "y"] := by decide
  have hscan : Token.scan "(x - 1) * y" = .ok (root.write ["x", "y"]) := by
    rw [hwrite]
    decide +kernel
  have hresult := (parse_write.1 root ["x", "y"] hroot).2 {} (by decide) (by decide) _ hscan []
  exact ⟨parse_write.2 _ [] _ _ _ hresult, hwrite, hresult⟩

end Session

end Arbor
