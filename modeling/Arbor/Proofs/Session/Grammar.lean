import Arbor.Engine.Grammar
import Arbor.Proofs.Grammar.Building

/-!
# What a session makes of a source

A session that sets no bounds gives the tree of a program for exactly the sources that
are a text of the program (`Program.IsReadFrom`), if the program keeps the bounds of the
grammar. Every other source is a syntax error (`Session.parse_ofGrammar`).
-/

namespace Arbor

/-- The bytes of a text are those that give back the text. -/
theorem fromUTF8?_eq_some_iff {source : ByteArray} {text : String} :
    String.fromUTF8? source = some text ↔ text.toUTF8 = source := by
  unfold String.fromUTF8?
  split
  · next h =>
    rw [Option.some.injEq]
    constructor
    · rintro rfl
      rfl
    · rintro rfl
      rfl
  · next h =>
    refine iff_of_false nofun ?_
    rintro rfl
    exact h text.isValidUTF8

/-- The source is the text of a program that keeps the bounds: it is UTF-8, and its tokens
    are those that the program derives. -/
def Program.IsReadFrom (p : Program) (b : Bounds) (source : ByteArray) : Prop :=
  (∃ text, String.toUTF8 text = source ∧ Token.scan text = .ok p.tokens) ∧
    p.nesting ≤ b.maxNesting ∧ p.node.Fits b.maxDepth

namespace Script

variable {b : Bounds} {w : Workspace} {source : ByteArray}

/-- The calls for the text of a program build its tree. -/
theorem follow_ofSource {p : Program} (hp : p.IsReadFrom b source) (hw : w.Open)
    (hs : w.symbols.size = 0) :
    w.follow (ofSource b source) = .ok (w.built p.node p.names) := by
  obtain ⟨⟨text, ht, hscan⟩, hn, hf⟩ := hp
  rw [ofSource, fromUTF8?_eq_some_iff.2 ht]
  simp only [hscan]
  exact follow_ofTokens p hn hf hw hs

/-- The calls for every other source end with a mark of failure. -/
theorem follow_ofSource_of_not (h : ¬∃ p : Program, p.IsReadFrom b source) (hw : w.Open)
    (hs : w.stack.size = 0) :
    ∃ v : Workspace, w.follow (ofSource b source) = .ok v ∧ v.failed = true := by
  have hmark : ∃ v : Workspace, w.follow [.setError] = .ok v ∧ v.failed = true :=
    ⟨{ w with failed := true }, rfl, rfl⟩
  unfold ofSource
  split
  · exact hmark
  · next text ht =>
    split
    · exact hmark
    · next tokens hscan =>
      refine follow_ofTokens_of_not ?_ hw hs
      rintro ⟨p, rfl, hn, hf⟩
      exact h ⟨p, ⟨text, fromUTF8?_eq_some_iff.1 ht, hscan⟩, hn, hf⟩

end Script

namespace Session

/-- The engine of the grammar comes to what following the calls for its source comes to. -/
theorem result_parse_ofGrammar (limits : Limits) (uses : List Use) (b : Bounds)
    (source : ByteArray) :
    ∃ input, (((new limits).after uses).parse (.ofGrammar b) source).result =
      match ({ Workspace.new limits with input } : Workspace).follow (.ofSource b source) with
      | .ok w => (w.conclude none).1
      | .error v => .error (.contract v) :=
  result_parse_of_script limits uses fun reply h => by rw [h]

/-- The grammar is recognised exactly. A session that sets no bounds gives a tree if and
    only if the source is the text of a program that keeps the bounds of the grammar, and
    the tree is then that of the program, with the names of the program. The program is
    the only one with its tokens, and its symbols are numbered as its names are. Every
    other source is a syntax error. -/
theorem parse_ofGrammar (b : Bounds) (uses : List Use) (source : ByteArray) :
    let result := (((new .unbounded).after uses).parse (.ofGrammar b) source).result
    (∀ tree, result = .ok tree ↔
        ∃ p : Program, p.IsReadFrom b source ∧ tree = ⟨p.node, .ofList p.names⟩) ∧
      (∀ p q : Program, p.tokens = q.tokens → p = q) ∧
      (∀ p : Program, p.node.symbols = numbers 0 p.names.length) ∧
      ∀ e, result = .error e → e = .syntaxError := by
  intro result
  obtain ⟨input, hi⟩ := result_parse_ofGrammar .unbounded uses b source
  have hopen : ({ Workspace.new .unbounded with input } : Workspace).Open := ⟨rfl, rfl⟩
  -- Either the source is the text of a program or not: each case settles the result.
  have hok (p : Program) (hp : p.IsReadFrom b source) :
      result = .ok ⟨p.node, .ofList p.names⟩ := by
    refine hi.trans ?_
    rw [Script.follow_ofSource hp hopen rfl]
    refine (Workspace.conclude_eq_ok rfl rfl rfl).trans ?_
    simp only [Workspace.built, SymbolTable.ofList, Except.ok.injEq, ParseTree.mk.injEq, true_and]
    congr 1
    exact Array.empty_append
  have herror (hp : ¬∃ p : Program, p.IsReadFrom b source) : result = .error .syntaxError := by
    obtain ⟨v, hv, hf⟩ := Script.follow_ofSource_of_not hp hopen rfl
    refine hi.trans ?_
    rw [hv]
    exact (v.conclude_eq_syntaxError_iff none).2 hf
  refine ⟨?_, fun p q => Program.tokens_inj, Program.symbols_node, ?_⟩
  · intro tree
    constructor
    · intro h
      by_cases hp : ∃ p : Program, p.IsReadFrom b source
      · obtain ⟨p, hp⟩ := hp
        rw [hok p hp] at h
        exact ⟨p, hp, (Except.ok.inj h).symm⟩
      · rw [herror hp] at h
        cases h
    · rintro ⟨p, hp, rfl⟩
      exact hok p hp
  · intro e h
    by_cases hp : ∃ p : Program, p.IsReadFrom b source
    · obtain ⟨p, hp⟩ := hp
      rw [hok p hp] at h
      cases h
    · rw [herror hp] at h
      exact (Except.error.inj h).symm

/-- A difference of three: the operands group to the left, and the names are numbered. -/
theorem parse_ofGrammar_difference :
    ((new .unbounded).parse (.ofGrammar {}) "x - 1 - y;".toUTF8).result =
      .ok ⟨.branch .subtract [.branch .subtract [.leaf .symbol 0, .leaf .number 1], .leaf .symbol 1],
        .ofList ["x", "y"]⟩ := by
  let value (a : Atom) : Phrase (some .product) := .chain (.atom a) .nil
  let p : Program :=
    ⟨0, .expression (.chain (.chain (value (.name "x"))
      (.cons .minus (value (.number 1)) (.cons .minus (value (.name "y")) .nil))) .nil), 1⟩
  have hfits : p.node.Fits 512 :=
    p.statement.fits_node_iff.2
      (by simp [p, value, Statement.Within, Phrase.Within, Tail.Within, Phrase.height, Tail.height])
  have hscan : Token.scan "x - 1 - y;" = .ok p.tokens := by
    have htokens : (Token.scan "x - 1 - y;").toOption = some p.tokens := by decide +kernel
    cases h : Token.scan "x - 1 - y;" with
    | error e => rw [h] at htokens; cases htokens
    | ok tokens =>
      rw [h] at htokens
      exact congrArg _ (Option.some.inj htokens)
  have hp : p.IsReadFrom {} "x - 1 - y;".toUTF8 := ⟨⟨_, rfl, hscan⟩, by decide, hfits⟩
  exact ((parse_ofGrammar {} [] _).1 _).2 ⟨p, hp, rfl⟩

end Session

end Arbor
