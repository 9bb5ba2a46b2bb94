import Arbor.Proofs.Grammar.Viable
import Arbor.Proofs.Session.Limits

/-!
# Where a syntax error is found

A session without limits that comes to a syntax error has made the calls up to the first token that
cannot stand where it does: the leaves pushed are those of the longest tokens that begin a program
(`Token.IsLongestViable`), and their names are left in the table
(`Session.parse_syntaxError_viable`). The bounds of the grammar must be larger than the number of
tokens, since what exceeds a bound is a syntax error as well.
-/

namespace Arbor

namespace Session

variable (uses : List Use) (b : Bounds)

/-- Without limits, a run that ends with a mark of failure leaves the names of its calls. -/
theorem symbolCount_of_mark {source : ByteArray} {moves : Script} (hm : ∀ op ∈ moves, op.IsMove)
    (hs : Script.ofSource b source = moves ++ [.setError]) :
    (((new .unbounded).after uses).parse (.ofGrammar b) source).session.symbolCount =
      (moves.filterMap (·.name?)).length := by
  obtain ⟨w, hw⟩ := Script.exists_follow_ofSource b source (Workspace.open_fed source) rfl rfl
  obtain ⟨-, hworkspace, -⟩ := parse_after .unbounded uses (.ofGrammar b) source
  have hread : ((Workspace.ready .unbounded source).reply .readToEnd).1.answer = .served source :=
    congrArg Answer.served (InputChannel.readToEnd_ofBytes source)
  have hrun : ((Engine.ofGrammar b).run (.ready .unbounded source)).workspace = w := by
    rw [Engine.ofGrammar, Engine.run_call, hread]
    exact (Engine.run_ofScript_of_follow hw).2
  rw [hs] at hw
  obtain ⟨v, hv, hmark⟩ := Workspace.exists_of_follow_append hw
  obtain ⟨-, he⟩ := Workspace.follow_demands rfl (Script.setError_notMem_of_moves hm) hv
  have hsize : v.symbols.size = (moves.filterMap (·.name?)).length := by
    rw [← Script.nameCounts_demands]
    exact (congrArg Extent.names he).trans (Nat.zero_add _)
  obtain rfl : { v with failed := true } = w := Except.ok.inj hmark
  obtain ⟨-, -, hcount⟩ := Workspace.conclude_workspace { v with failed := true }
    ((Engine.ofGrammar b).run (.ready .unbounded source)).verdict
  rw [(Workspace.conclude_eq_syntaxError_iff _ _).2 rfl] at hcount
  rw [symbolCount, hworkspace, hrun, hcount, ← hsize]

/-- A syntax error is found at the first token that cannot stand where it does. The calls up to the
    mark of failure push the leaves of the longest tokens that begin a program, in their order, and
    else only make pairs. Afterwards the table holds the names of these tokens. -/
theorem parse_syntaxError_viable {text : String} {tokens : List Token}
    (hscan : Token.scan text = .ok tokens) (hn : tokens.length < b.maxNesting)
    (hd : tokens.length < b.maxDepth) :
    let outcome := ((new .unbounded).after uses).parse (.ofGrammar b) text.toUTF8
    outcome.result = .error .syntaxError →
      ∃ viable script, Token.IsLongestViable b viable tokens ∧
        outcome.exchanges.map (·.call) =
          .readToEnd :: (script.map .build ++ [.build .setError]) ∧
        (∀ op ∈ script, op.IsMove) ∧ Script.pushes script = Token.leaves viable ∧
          outcome.session.symbolCount = (Token.names viable).length := by
  intro outcome herror
  have hsource : Script.ofSource b text.toUTF8 = .ofTokens b tokens := by
    rw [Script.ofSource, fromUTF8?_eq_some_iff.2 rfl]
    simp only [hscan]
  have hnot : ¬∃ p : Program, p.tokens = tokens ∧ p.nesting ≤ b.maxNesting ∧
      p.node.Fits b.maxDepth := by
    rintro ⟨p, rfl, hp, hf⟩
    have hok := (result_parse_unbounded uses b text.toUTF8).1 p ⟨⟨text, rfl, hscan⟩, hp, hf⟩
    cases hok.symm.trans herror
  obtain ⟨viable, script, hviable, hscript, hmoves, hpushes⟩ :=
    Script.exists_viable_ofTokens hn hd hnot
  rw [← hsource] at hscript
  refine ⟨viable, script, hviable, ?_, hmoves, hpushes, ?_⟩
  · have hcalls := calls_parse_unbounded uses b text.toUTF8
    rw [hscript, List.map_append] at hcalls
    exact hcalls
  · refine (symbolCount_of_mark uses b hmoves hscript).trans ?_
    rw [← Script.filterMap_name?_pushes, hpushes, Token.filterMap_name?_leaves]

/-- In `a = b = c`, the first two names and the first `=` begin a program, and the second `=` cannot
    come next. -/
theorem parse_syntaxError_viable_chain :
    let tokens : List Token := [.ident "a", .assign, .ident "b", .assign, .ident "c"]
    let outcome := (new .unbounded).parse (.ofGrammar {}) "a = b = c".toUTF8
    Token.scan "a = b = c" = .ok tokens ∧ outcome.result = .error .syntaxError ∧
      outcome.session.symbolCount = 2 ∧
      ∃ viable script, Token.IsLongestViable {} viable tokens ∧
        outcome.exchanges.map (·.call) =
          .readToEnd :: (script.map .build ++ [.build .setError]) ∧
        (∀ op ∈ script, op.IsMove) ∧ Script.pushes script = Token.leaves viable ∧
          outcome.session.symbolCount = (Token.names viable).length := by
  intro tokens outcome
  have hscan : Token.scan "a = b = c" = .ok tokens := by decide +kernel
  have hscript : Script.ofSource {} "a = b = c".toUTF8 =
      [.pushSymbol "a", .pushSymbol "b", .reduce .assign 2] ++ [.setError] := by decide +kernel
  have herror : outcome.result = .error .syntaxError := by
    refine (exists_run_ofGrammar .unbounded [] {} "a = b = c".toUTF8).1.trans ?_
    rw [hscript]
    rfl
  have hmoves : ∀ op ∈ [BuildOp.pushSymbol "a", .pushSymbol "b", .reduce .assign 2], op.IsMove :=
    List.forall_mem_cons.2 ⟨.inl ⟨.name "a", rfl⟩, List.forall_mem_cons.2 ⟨.inl ⟨.name "b", rfl⟩,
      List.forall_mem_singleton.2 (.inr ⟨.assign, rfl⟩)⟩⟩
  exact ⟨hscan, herror, symbolCount_of_mark [] {} hmoves hscript,
    parse_syntaxError_viable [] {} hscan (by decide) (by decide) herror⟩

end Session

end Arbor
