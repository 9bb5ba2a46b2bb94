import Arbor.Interpreter
import Arbor.Proofs.Evaluation.Expression
import Arbor.Proofs.Session.Program

/-!
# Statements one by one

Whatever an interpreter was given before, a source has no parse tree, or is the text of one
program whose tree is evaluated (`Interpreter.parse_cases`). Two things follow for all
interpreters and all sources:

* the evaluation has a value or an error about values, and finds the name of every symbol
  (`Interpreter.interpret_isOrdinary`);
* a statement binds one name at most, and none if it fails or assigns to none
  (`Interpreter.names_interpret`).
-/

namespace Arbor

namespace Program

variable {p : Program} {e : Expression} {capacity : Option Nat} {names : Namespace}

/-- A program that is an expression binds nothing. -/
theorem names_evaluate_expression (hs : p.statement = .expression e)
    (h : ∀ t ∈ p.tokens, t.IsWord) : ((p.tree capacity).evaluate names).2 = names := by
  have hwords := isWord_of_mem_statement h
  rw [hs, Statement.tokens] at hwords
  rw [ParseTree.evaluate, tree, node, hs]
  exact (e.isExpression_node 0 hwords).eval_names

/-- The name that a program assigns to is the first that it has. -/
theorem bind_target {name : String} (hs : p.statement = .assign name e) (value : Value) :
    (p.tree capacity).bind (.leaf .symbol 0) value names = (.ok value, names.set name value) := by
  have hnames : p.names = name :: Token.names e.tokens := by
    rw [p.names_eq, hs]
    rfl
  have htext : (p.tree capacity).symbolText (.leaf .symbol 0) = .ok name := by
    rw [tree, hnames]
    rfl
  rw [ParseTree.bind, htext]

/-- A program that assigns binds the name that it assigns to as the last thing it does. -/
theorem evaluate_assign {name : String} (hs : p.statement = .assign name e)
    (h : ∀ t ∈ p.tokens, t.IsWord) :
    (p.tree capacity).evaluate names =
      match ((p.tree capacity).eval (e.node 1) names).1 with
      | .ok value => (.ok value, names.set name value)
      | .error e => (.error e, names) := by
  have hwords := isWord_of_mem_statement h
  rw [hs, Statement.tokens, List.forall_mem_cons, List.forall_mem_cons] at hwords
  have hroot : (p.tree capacity).root = .branch .assign [.leaf .symbol 0, e.node 1] := by
    rw [tree, node, hs, Statement.node]
  rw [ParseTree.evaluate, hroot, ParseTree.eval_assign 0 (e.isExpression_node 1 hwords.2.2)]
  rcases ((p.tree capacity).eval (e.node 1) names).1 with e' | value
  · rfl
  · exact bind_target hs value

end Program

namespace Interpreter

variable (i : Interpreter) (source : String)

/-- Without a parse tree, nothing is evaluated. -/
theorem interpret_of_error {e : ParseError}
    (h : (i.session.parse (.ofGrammar i.bounds) source.toUTF8).result = .error e) :
    (i.interpret source).1 = .error (.parse e) ∧ (i.interpret source).2.names = i.names := by
  unfold interpret
  simp only [h, and_self]

/-- A parse tree is evaluated with the names bound so far. -/
theorem interpret_of_ok {tree : ParseTree}
    (h : (i.session.parse (.ofGrammar i.bounds) source.toUTF8).result = .ok tree) :
    (i.interpret source).1 = (tree.evaluate i.names).1.mapError .eval ∧
      (i.interpret source).2.names = (tree.evaluate i.names).2 := by
  unfold interpret
  simp only [h]
  exact ⟨rfl, rfl⟩

/-- A source has no parse tree, or it is the text of a program, and gives its tree. -/
theorem parse_cases :
    (∃ e, (i.session.parse (.ofGrammar i.bounds) source.toUTF8).result = .error e) ∨
      ∃ p : Program, p.IsReadFrom i.bounds source.toUTF8 ∧ ∃ capacity,
        (i.session.parse (.ofGrammar i.bounds) source.toUTF8).result = .ok (p.tree capacity) := by
  rcases h : (i.session.parse (.ofGrammar i.bounds) source.toUTF8).result with e | tree
  · exact .inl ⟨e, rfl⟩
  · obtain ⟨p, hp, capacity, rfl⟩ := Session.exists_program_of_ok h
    exact .inr ⟨p, hp, capacity, rfl⟩

/-- No source makes an interpreter fail in a way that is not the source's own doing. It has a
    value, or there is no parse tree, or operands are of the wrong types, a divisor is zero or a
    result is out of range. And every symbol of the tree that is evaluated has a name, as
    `symbolText` asks for.

    The names of a source are numbered by 64-bit integers, so there must not be more of them:
    no text in memory is that long. -/
theorem interpret_isOrdinary (hsize : source.utf8ByteSize ≤ Integer.largest) :
    ((∃ value, (i.interpret source).1 = .ok value) ∨
        (∃ e, (i.interpret source).1 = .error (.parse e)) ∨
          ∃ e : EvalError, e.IsOrdinary ∧ (i.interpret source).1 = .error (.eval e)) ∧
      ∀ tree, (i.session.parse (.ofGrammar i.bounds) source.toUTF8).result = .ok tree →
        ∀ node ∈ tree.root.preorder, node.kind = .symbol →
          ∃ name, tree.symbolText node = .ok name := by
  rcases i.parse_cases source with ⟨e, hparse⟩ | ⟨p, hp, capacity, hparse⟩
  · refine ⟨.inr (.inl ⟨e, (i.interpret_of_error source hparse).1⟩), fun tree htree => ?_⟩
    cases hparse.symm.trans htree
  · have hnode := p.isWellFormed_node hp.isWord
    have hresolves : (p.tree capacity).Resolves p.node :=
      hnode.resolves (Nat.le_trans hp.length_names_le hsize) capacity
    constructor
    · rw [(i.interpret_of_ok source hparse).1]
      rcases hvalue : ((p.tree capacity).evaluate i.names).1 with e | value
      · exact .inr (.inr ⟨e, hnode.statement.isOrdinary hresolves hvalue, rfl⟩)
      · exact .inl ⟨value, rfl⟩
    · intro tree htree node hmem hk
      cases hparse.symm.trans htree
      exact hresolves.exists_symbolText hmem hk

/-- A name that is not bound stands for nil, and nil is not added to a number. -/
theorem interpret_isOrdinary_unbound :
    "x + 1".utf8ByteSize ≤ Integer.largest ∧
      (({} : Interpreter).interpret "x + 1").1 = .error (.eval (.typeMismatch .add "nil" "int")) ∧
      (EvalError.typeMismatch .add "nil" "int").IsOrdinary := by
  have hsize : "x + 1".utf8ByteSize ≤ Integer.largest := by decide +kernel
  have hscript : Script.ofSource {} "x + 1".toUTF8 =
      [.pushSymbol "x", .pushNumber 1, .reduce .add 2] := by decide +kernel
  have hparse : (({} : Interpreter).session.parse (.ofGrammar {}) "x + 1".toUTF8).result =
      .ok ⟨.branch .add [.leaf .symbol 0, .leaf .number 1], #["x"], some 1024⟩ := by
    refine (Session.exists_run_ofGrammar {} [] {} "x + 1".toUTF8).1.trans ?_
    rw [hscript]
    rfl
  have hanswer := (({} : Interpreter).interpret_of_ok "x + 1" hparse).1
  refine ⟨hsize, hanswer, ?_⟩
  rcases (({} : Interpreter).interpret_isOrdinary "x + 1" hsize).1 with
    ⟨value, hv⟩ | ⟨e, he⟩ | ⟨e, ho, he⟩
  · cases hanswer.symm.trans hv
  · cases hanswer.symm.trans he
  · cases hanswer.symm.trans he
    exact ho

/-- A statement changes the value of one name at most. If it has no value, or is an expression,
    then every name keeps its value. If it has a value and assigns, then the name that it assigns
    to has this value, and all others keep theirs. -/
theorem names_interpret :
    (∀ e, (i.interpret source).1 = .error e → (i.interpret source).2.names = i.names) ∧
      ∀ value, (i.interpret source).1 = .ok value →
        ∃ p : Program, (∀ q : Program, q.IsReadFrom i.bounds source.toUTF8 ↔ q = p) ∧
          let bound := (i.interpret source).2.names
          match p.statement with
          | .expression _ => bound = i.names
          | .assign name _ =>
            bound = i.names.set name value ∧ bound.get? name = some value ∧
              ∀ other, other ≠ name → bound.get? other = i.names.get? other := by
  rcases i.parse_cases source with ⟨e, hparse⟩ | ⟨p, hp, capacity, hparse⟩
  · obtain ⟨hanswer, hnames⟩ := i.interpret_of_error source hparse
    refine ⟨fun _ _ => hnames, fun value hvalue => ?_⟩
    cases hanswer.symm.trans hvalue
  · obtain ⟨hanswer, hnames⟩ := i.interpret_of_ok source hparse
    have hunique (q : Program) : q.IsReadFrom i.bounds source.toUTF8 ↔ q = p :=
      ⟨fun hq => hq.unique hp, fun hq => hq ▸ hp⟩
    rw [hanswer, hnames]
    rcases hs : p.statement with e | ⟨name, e⟩
    · have hkeep : ((p.tree capacity).evaluate i.names).2 = i.names :=
        Program.names_evaluate_expression hs hp.isWord
      refine ⟨fun _ _ => hkeep, fun value hvalue => ⟨p, hunique, ?_⟩⟩
      rw [hs]
      exact hkeep
    · rw [Program.evaluate_assign hs hp.isWord]
      rcases ((p.tree capacity).eval (e.node 1) i.names).1 with e' | result
      · exact ⟨fun _ _ => rfl, nofun⟩
      · refine ⟨nofun, fun value hvalue => ⟨p, hunique, ?_⟩⟩
        cases hvalue
        rw [hs]
        refine ⟨rfl, ?_, fun other hother => ?_⟩
        · rw [Namespace.get?_set, if_pos rfl]
        · rw [Namespace.get?_set, if_neg hother]

/-- The name that is assigned to may stand on the right, with the value it had. -/
theorem names_interpret_increment :
    let i : Interpreter := { names := ({} : Namespace).set "x" (.int 2) }
    (i.interpret "x = x + 1").1 = .ok (.int 3) ∧
      (i.interpret "x = x + 1").2.names = i.names.set "x" (.int 3) := by
  intro i
  have hscript : Script.ofSource {} "x = x + 1".toUTF8 =
      [.pushSymbol "x", .pushSymbol "x", .pushNumber 1, .reduce .add 2, .reduce .assign 2] := by
    decide +kernel
  have hparse : (i.session.parse (.ofGrammar {}) "x = x + 1".toUTF8).result =
      .ok ⟨.branch .assign
        [.leaf .symbol 0, .branch .add [.leaf .symbol 1, .leaf .number 1]], #["x", "x"], some 1024⟩ := by
    refine (Session.exists_run_ofGrammar {} [] {} "x = x + 1".toUTF8).1.trans ?_
    rw [hscript]
    rfl
  have hanswer : (i.interpret "x = x + 1").1 = .ok (.int 3) := (i.interpret_of_ok _ hparse).1
  let value (a : Atom) : Phrase (some .product) := .chain (.atom a) .nil
  let p : Program :=
    ⟨0, .assign "x" (.chain (.chain (value (.name "x"))
      (.cons .plus (value (.number 1)) .nil)) .nil), 0⟩
  have hfits : p.node.Fits 512 :=
    p.statement.fits_node_iff.2
      (by simp [p, value, Statement.Within, Phrase.Within, Tail.Within, Phrase.height, Tail.height])
  have hp : p.IsReadFrom {} "x = x + 1".toUTF8 := ⟨⟨_, rfl, by decide +kernel⟩, by decide, hfits⟩
  obtain ⟨q, hq, hbound⟩ := (i.names_interpret "x = x + 1").2 _ hanswer
  obtain rfl := (hq p).1 hp
  exact ⟨hanswer, hbound.1⟩

end Interpreter

end Arbor
