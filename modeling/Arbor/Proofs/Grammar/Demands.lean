import Arbor.Proofs.Engine.Limits
import Arbor.Proofs.Grammar.Building
import Arbor.Proofs.Node.Need

/-!
# What recognition demands

The calls of a derivation demand what the nodes of its tree demand in post-order
(`Program.demands_script`). Recognition of any tokens issues no other calls than such a
derivation has, and marks a failure behind all of them, if at all (`Script.exists_ofTokens`).
-/

namespace Arbor

/-! ### Programs -/

theorem Atom.demands_op (a : Atom) (next : Nat) : Script.demands [a.op] = (a.node next).demands := by
  cases a <;> rfl

mutual

/-- The calls of a phrase demand what the nodes of its tree do. -/
theorem Phrase.demands_script (next : Nat) {part : Option Level} :
    ∀ p : Phrase part, p.script.demands = (p.node next).demands
  | .atom a => a.demands_op next
  | .paren inner => inner.demands_script next
  | .chain first more => by
    rw [Phrase.script, Script.demands_append, first.demands_script next,
      more.demands_script, Phrase.node]

/-- The calls of a tail demand what its tree does beyond the tree on its left. -/
theorem Tail.demands_script (next : Nat) (left : Node) {level : Level} :
    ∀ m : Tail level, left.demands ++ m.script.demands = (m.node next left).demands
  | .nil => List.append_nil _
  | .cons operator operand more => by
    have hreduce (script : Script) :
        Script.demands (.reduce operator.kind 2 :: script) = .branch 2 :: script.demands :=
      Script.demands_cons rfl script
    rw [Tail.node, ← more.demands_script, Node.demands_pair, Tail.script, Script.demands_append,
      operand.demands_script next, hreduce]
    simp only [List.append_assoc, List.singleton_append]

end

theorem Statement.demands_script (s : Statement) : s.script.demands = s.node.demands := by
  cases s with
  | expression e => exact e.demands_script 0
  | assign text e =>
    have hname (script : Script) :
        Script.demands (.pushSymbol text :: script) = .leaf true :: script.demands :=
      Script.demands_cons rfl script
    rw [Statement.script, hname, Script.demands_append, e.demands_script 1, Statement.node,
      Node.demands_pair]
    rfl

/-- The calls of a program demand what the nodes of its tree do. -/
theorem Program.demands_script (p : Program) : p.statement.script.demands = p.node.demands :=
  p.statement.demands_script

/-! ### Recognition -/

/-- The calls that recognition issues: those for atoms, and reductions of two trees. -/
def BuildOp.IsMove (op : BuildOp) : Prop := (∃ a : Atom, op = a.op) ∨ ∃ kind, op = .reduce kind 2

namespace Script

variable {script : Script}

theorem setError_notMem_of_moves (h : ∀ op ∈ script, op.IsMove) : .setError ∉ script := by
  intro hm
  rcases h _ hm with ⟨a, ha⟩ | ⟨kind, hk⟩
  · cases a <;> cases ha
  · cases hk

/-- No move makes a branch without children. -/
theorem branch_zero_notMem_of_moves (h : ∀ op ∈ script, op.IsMove) : .branch 0 ∉ script.demands := by
  intro hm
  obtain ⟨op, hop, hd⟩ := List.mem_filterMap.1 hm
  rcases h op hop with ⟨a, rfl⟩ | ⟨kind, rfl⟩
  · cases a <;> cases hd
  · cases hd

end Script

namespace Recognition

variable {b : Bounds} {r s : Recognition}

/-- A move issues one call or none. -/
theorem Move.issued (h : Move b r s) :
    s.issued = r.issued ∨ ∃ op : BuildOp, op.IsMove ∧ s.issued = op :: r.issued := by
  cases h with
  | assign text => exact .inr ⟨_, .inl ⟨.name text, rfl⟩, rfl⟩
  | atom a => exact .inr ⟨_, .inl ⟨a, rfl⟩, rfl⟩
  | reduce kind => exact .inr ⟨_, .inr ⟨kind, rfl⟩, rfl⟩
  | _ => exact .inl rfl

/-- A run adds moves to the calls issued. -/
theorem exists_issued_run (b : Bounds) (r : Recognition) :
    ∃ moves : Script, (r.run b).issued = moves ++ r.issued ∧ ∀ op ∈ moves, op.IsMove := by
  refine run_induction (P := fun s => ∃ moves : Script, s.issued = moves ++ r.issued ∧
    ∀ op ∈ moves, op.IsMove) ⟨[], rfl, List.forall_mem_nil _⟩ ?_
  rintro s t hmove ⟨moves, hs, hm⟩
  rcases hmove.issued with hi | ⟨op, hop, hi⟩
  · exact ⟨moves, hi.trans hs, hm⟩
  · exact ⟨op :: moves, by rw [hi, hs]; rfl, List.forall_mem_cons.2 ⟨hop, hm⟩⟩

end Recognition

/-- The calls for tokens are moves, and a mark of failure behind them if the tokens are no
    program. -/
theorem Script.exists_ofTokens (b : Bounds) (tokens : List Token) :
    ∃ moves : Script, (∀ op ∈ moves, op.IsMove) ∧ ofTokens b tokens =
      moves ++ if ((Recognition.start tokens).run b).goals.isEmpty then [] else [.setError] := by
  obtain ⟨moves, hs, hm⟩ := Recognition.exists_issued_run b (Recognition.start tokens)
  have hnil : (Recognition.start tokens).issued = [] := rfl
  refine ⟨moves.reverse, fun op hop => hm op (List.mem_reverse.1 hop), ?_⟩
  rw [ofTokens, Recognition.script, hs, hnil, List.append_nil]

end Arbor
