import Arbor.Proofs.Grammar.Demands
import Arbor.Proofs.Token.Scan

/-!
# How much of the stack recognition takes

Trees wait on the stack for the operand on their right: inside a parenthesis at most one
for each of the three levels, and one more in front of all, the name that is assigned to.
So with the operand that comes last, recognition never takes more than `3 * n + 5` places
when parentheses nest `n` deep, whether the tokens are a program or not
(`Script.peak_ofTokens_le`). The invariant is `Goal.Roomy`, which says for every goal left how
many trees may stand on the stack when its turn comes; every move keeps it
(`Recognition.Roomy.move`).

No smaller bound will do: the tokens of `Token.tower` keep a tree waiting wherever one can
wait (`Recognition.run_tower`), and overflow every smaller stack
(`Script.firstExceeded?_tower`).
-/

namespace Arbor

/-! ### An upper bound -/

namespace Level

/-- How many trees may wait in front of a phrase, since the last parenthesis opened; the name
    that is assigned to counts everywhere. -/
def waiting : Option Level → Nat
  | some comparison => 1
  | some sum => 2
  | some product => 3
  | none => 4

theorem waiting_tighter (level : Level) : waiting level.tighter = waiting (some level) + 1 := by
  cases level <;> rfl

end Level

namespace Goal

/-- Inside `nesting` parentheses and with `count` trees on the stack, no goal finds more trees
    in its turn than may wait there. -/
def Roomy : List Goal → Nat → Nat → Prop
  | [], _, _ => True
  | .statement :: goals, nesting, count => count ≤ 3 * nesting ∧ Roomy goals nesting (count + 1)
  | .expression level :: goals, nesting, count =>
    count ≤ 3 * nesting + Level.waiting (some level) ∧ Roomy goals nesting (count + 1)
  | .value :: goals, nesting, count =>
    count ≤ 3 * nesting + Level.waiting none ∧ Roomy goals nesting (count + 1)
  | .more level :: goals, nesting, count =>
    count ≤ 3 * nesting + Level.waiting level.tighter ∧ Roomy goals nesting count
  | .reduce _ :: goals, nesting, count => Roomy goals nesting (count - 1)
  | .close :: goals, nesting, count => 1 ≤ nesting ∧ Roomy goals (nesting - 1) count
  | .finish :: goals, nesting, count => Roomy goals nesting count

theorem roomy_goal_cons (part : Option Level) (goals : List Goal) (nesting count : Nat) :
    Roomy (Level.goal part :: goals) nesting count ↔
      count ≤ 3 * nesting + Level.waiting part ∧ Roomy goals nesting (count + 1) := by
  cases part <;> exact Iff.rfl

end Goal

/-- The call for an atom demands a place on the stack. -/
theorem Atom.demand?_op (a : Atom) : ∃ named, a.op.demand? = some (.leaf named) := by
  cases a <;> exact ⟨_, rfl⟩

namespace Recognition

/-- The demands of the calls issued so far, the first one first. -/
def demands (r : Recognition) : List Demand := Script.demands r.issued.reverse

/-- The trees on the stack are counted by their heights, and neither the calls issued nor the
    goals left ask for more room than there is for `b`. -/
structure Roomy (b : Bounds) (r : Recognition) : Prop where
  nesting : r.nesting ≤ b.maxNesting
  goals : Goal.Roomy r.goals r.nesting r.heights.length
  trees : Demand.treesAfterAll 0 r.demands = r.heights.length
  peak : Demand.peak 0 r.demands ≤ 3 * b.maxNesting + 5

variable {b : Bounds} {goals goals' : List Goal} {rest rest' : List Token}
  {nesting nesting' : Nat} {heights heights' : List Nat} {issued : Script}

theorem demands_cons {op : BuildOp} {d : Demand} (hd : op.demand? = some d) :
    demands ⟨goals, rest, nesting, heights, op :: issued⟩ =
      demands ⟨goals', rest', nesting', heights', issued⟩ ++ [d] := by
  rw [demands, List.reverse_cons, Script.demands_append, Script.demands_cons hd, demands]
  rfl

theorem Roomy.length_heights_le (h : Roomy b ⟨goals, rest, nesting, heights, issued⟩) :
    heights.length ≤ 3 * b.maxNesting + 5 := by
  have hcount := Demand.treesAfterAll_le_peak 0 (demands ⟨goals, rest, nesting, heights, issued⟩)
  rw [h.trees] at hcount
  exact Nat.le_trans hcount h.peak

theorem Roomy.mono (h : Roomy b ⟨goals, rest, nesting, heights, issued⟩)
    (hn : nesting' ≤ b.maxNesting) (hg : Goal.Roomy goals' nesting' heights.length) :
    Roomy b ⟨goals', rest', nesting', heights, issued⟩ := ⟨hn, hg, h.trees, h.peak⟩

/-- A call may be issued that leaves as many trees as there are heights, if there is room. -/
theorem Roomy.issue {op : BuildOp} {d : Demand}
    (h : Roomy b ⟨goals, rest, nesting, heights, issued⟩) (hd : op.demand? = some d)
    (ht : d.treesAfter heights.length = heights'.length)
    (hp : heights'.length ≤ 3 * b.maxNesting + 5)
    (hg : Goal.Roomy goals' nesting heights'.length) :
    Roomy b ⟨goals', rest', nesting, heights', op :: issued⟩ := by
  have hds : demands ⟨goals', rest', nesting, heights', op :: issued⟩ =
      demands ⟨goals, rest, nesting, heights, issued⟩ ++ [d] := demands_cons hd
  refine ⟨h.nesting, hg, ?_, ?_⟩
  · rw [hds, Demand.treesAfterAll_append, h.trees]
    exact ht
  · have hcount : heights.length ≤ 3 * b.maxNesting + 5 := h.length_heights_le
    rw [hds, Demand.peak_append, h.trees]
    simp only [Demand.peak, ht]
    exact Nat.max_le.2 ⟨h.peak, Nat.max_le.2 ⟨hcount, hp⟩⟩

/-- Every move leaves room, if the goals are ready. -/
theorem Roomy.move {r s : Recognition} (h : Roomy b r) (hr : Goal.Ready r.goals r.heights.length)
    (hm : Move b r s) : Roomy b s := by
  obtain ⟨goals, rest, nesting, heights, issued⟩ := r
  have hn : nesting ≤ b.maxNesting := h.nesting
  have hg : Goal.Roomy goals nesting heights.length := h.goals
  cases hm with
  | assign text =>
    obtain ⟨hc, hg⟩ := hg
    refine h.issue (d := .leaf true) rfl rfl ?_ ⟨?_, hg⟩
    · simp only [List.length_cons]
      omega
    · exact Nat.succ_le_succ hc
  | plain =>
    obtain ⟨hc, hg⟩ := hg
    exact h.mono hn ⟨Nat.le_succ_of_le hc, hg⟩
  | descend level =>
    obtain ⟨hc, hg⟩ := hg
    have hw := level.waiting_tighter
    refine h.mono hn ((Goal.roomy_goal_cons _ _ _ _).2 ⟨by omega, ?_, hg⟩)
    rw [hw, ← Nat.add_assoc]
    exact Nat.succ_le_succ hc
  | operator operator =>
    obtain ⟨hc, hg⟩ := hg
    exact h.mono hn ((Goal.roomy_goal_cons _ _ _ _).2 ⟨hc, hc, hg⟩)
  | stop => exact h.mono hn hg.2
  | atom a =>
    obtain ⟨hc, hg⟩ := hg
    obtain ⟨named, hd⟩ := a.demand?_op
    refine h.issue hd rfl ?_ hg
    simp only [List.length_cons, Level.waiting] at hc ⊢
    omega
  | paren hlt =>
    -- A parenthesis brings room for the three trees that may wait in front of it.
    obtain ⟨hc, hg⟩ := hg
    refine h.mono hlt ⟨?_, Nat.le_add_left 1 nesting, hg⟩
    simp only [Level.waiting] at hc ⊢
    omega
  | close => exact h.mono (Nat.le_trans (Nat.sub_le _ 1) hn) hg.2
  | reduce kind =>
    obtain ⟨right, left, heights, rfl⟩ := Goal.exists_of_ready_reduce hr
    refine h.issue (d := .branch 2) rfl rfl ?_ hg
    exact Nat.le_trans (Nat.le_succ _) h.length_heights_le
  | finish => exact h.mono hn hg

/-- Recognition leaves room to its end. -/
theorem Roomy.run {w : Workspace} {r : Recognition} (h : Roomy b r) (hs : Sound w r) :
    Roomy b (r.run b) :=
  (run_induction (P := fun s => Sound w s ∧ Roomy b s) ⟨hs, h⟩
    fun _ _ hm h => ⟨h.1.move hm, h.2.move h.1.ready hm⟩).2

theorem roomy_start (b : Bounds) (tokens : List Token) : Roomy b (start tokens) :=
  ⟨Nat.zero_le _, ⟨Nat.le_refl _, trivial⟩, rfl, Nat.zero_le _⟩

end Recognition

/-- Whatever the tokens are, their calls never ask for more than three places for each
    parenthesis that may be open, and five more. -/
theorem Script.peak_ofTokens_le (b : Bounds) (tokens : List Token) :
    Demand.peak 0 (ofTokens b tokens).demands ≤ 3 * b.maxNesting + 5 := by
  have hopen : (Workspace.new .unbounded).Open := ⟨rfl, rfl⟩
  have h := ((Recognition.roomy_start b tokens).run (Recognition.sound_start hopen rfl tokens)).peak
  have hmark : (ofTokens b tokens).demands = ((Recognition.start tokens).run b).demands := by
    rw [ofTokens, Recognition.script, demands_append]
    split <;> exact List.append_nil _
  rw [hmark]
  exact h

/-! ### Tokens that take all the room -/

/-- An atom alone, as a phrase of any kind. -/
def Phrase.ofAtom (a : Atom) : (part : Option Level) → Phrase part
  | none => .atom a
  | some .product => .chain (.atom a) .nil
  | some .sum => .chain (.chain (.atom a) .nil) .nil
  | some .comparison => .chain (.chain (.chain (.atom a) .nil) .nil) .nil

namespace Token

/-- Three operands that wait for the one to come, one for each level. -/
def storey : List Token := [.number 1, .equals, .number 1, .plus, .number 1, .star]

/-- Storeys inside one another, each in the parenthesis that the one before waits for. None of
    the parentheses is closed. -/
def tower : Nat → List Token
  | 0 => storey ++ [.number 1]
  | n + 1 => storey ++ .leftParen :: tower n

theorem isSpelled_of_mem_tower {n : Nat} : ∀ t ∈ tower n, t.isSpelled := by
  have hstorey : ∀ t ∈ storey, t.isSpelled := by decide +kernel
  induction n with
  | zero => exact List.forall_mem_append.2 ⟨hstorey, by decide +kernel⟩
  | succ n ih =>
    have hparen : leftParen.isSpelled := by decide +kernel
    exact List.forall_mem_append.2 ⟨hstorey, List.forall_mem_cons.2 ⟨hparen, ih⟩⟩

end Token

namespace Recognition

variable {b : Bounds} {goals : List Goal} {rest : List Token} {nesting : Nat}
  {heights : List Nat} {issued : Script}

/-- An atom meets the goal of any phrase, if what comes behind stops the phrase. -/
theorem run_atom (a : Atom) {part : Option Level} (hs : Level.Stops part rest)
    (hn : nesting ≤ b.maxNesting) :
    run b ⟨Level.goal part :: goals, a.token :: rest, nesting, heights, issued⟩ =
      run b ⟨goals, rest, nesting, 1 :: heights, a.op :: issued⟩ := by
  cases part with
  | none => exact (Phrase.ofAtom a none).run hs hn trivial goals heights issued
  | some level =>
    have hw : (Phrase.ofAtom a (some level)).Within b.maxDepth := by
      cases level <;> simp [Phrase.ofAtom, Phrase.Within, Tail.Within]
    cases level <;> exact (Phrase.ofAtom a _).run hs hn hw goals heights issued

/-- An atom before an operator waits for the operand behind it. -/
theorem run_left {level : Level} (a : Atom) (operator : Operator level) (hn : nesting ≤ b.maxNesting) :
    run b ⟨.expression level :: goals, a.token :: operator.token :: rest, nesting, heights, issued⟩ =
      run b ⟨Level.goal level.tighter :: .reduce operator.kind :: .more level :: goals, rest, nesting,
        1 :: heights, a.op :: issued⟩ := by
  rw [run_cons (advance_expression level), run_atom a (operator.stops_token rest) hn,
    run_cons (advance_operator operator)]

/-- The call for the literal in the storeys of a tower. -/
def brick : BuildOp := .pushNumber 1

/-- A storey leaves three trees more, and the value to come is still to be found. -/
theorem run_storey (goals : List Goal) (rest : List Token) (heights : List Nat) (issued : Script)
    (hn : nesting ≤ b.maxNesting) :
    ∃ goals' heights',
      run b ⟨.expression .comparison :: goals, Token.storey ++ rest, nesting, heights, issued⟩ =
        run b ⟨.value :: goals', rest, nesting, heights', List.replicate 3 brick ++ issued⟩ := by
  refine ⟨.reduce .multiply :: .more .product :: .reduce .add :: .more .sum :: .reduce .compare ::
    .more .comparison :: goals, 1 :: 1 :: 1 :: heights, ?_⟩
  calc
    _ = run b ⟨.expression .sum :: .reduce .compare :: .more .comparison :: goals,
        .number 1 :: .plus :: .number 1 :: .star :: rest, nesting, 1 :: heights, brick :: issued⟩ :=
      run_left (.number 1) .equals hn
    _ = run b ⟨.expression .product :: .reduce .add :: .more .sum :: .reduce .compare ::
        .more .comparison :: goals, .number 1 :: .star :: rest, nesting, 1 :: 1 :: heights,
        brick :: brick :: issued⟩ := run_left (.number 1) .plus hn
    _ = _ := run_left (.number 1) .star hn

/-- A tower of `n` storeys above the first is found up to its last literal. -/
theorem run_tower (n : Nat) (goals : List Goal) (heights : List Nat) (issued : Script)
    (hn : nesting + n ≤ b.maxNesting) :
    ∃ r : Recognition, r.issued = List.replicate (3 * n + 4) brick ++ issued ∧
      run b ⟨.expression .comparison :: goals, Token.tower n, nesting, heights, issued⟩ = run b r := by
  induction n generalizing goals nesting heights issued with
  | zero =>
    obtain ⟨goals', heights', h⟩ := run_storey goals [.number 1] heights issued hn
    refine ⟨⟨goals', [], nesting, 1 :: heights', List.replicate 4 brick ++ issued⟩, rfl, ?_⟩
    exact h.trans (run_cons (advance_atom (.number 1)))
  | succ n ih =>
    have hlt : nesting < b.maxNesting := by omega
    have hin : nesting + 1 + n ≤ b.maxNesting := by omega
    obtain ⟨goals', heights', h⟩ :=
      run_storey goals (.leftParen :: Token.tower n) heights issued (Nat.le_of_lt hlt)
    obtain ⟨r, hr, hrun⟩ := ih (.close :: goals') heights' (List.replicate 3 brick ++ issued) hin
    refine ⟨r, ?_, (h.trans (run_cons (advance_paren hlt))).trans hrun⟩
    rw [hr, ← List.append_assoc, List.replicate_append_replicate]
    congr 2

end Recognition

namespace Script

/-- The calls for a name that a tower is assigned to begin with a leaf for every place there is. -/
theorem exists_ofTokens_tower (b : Bounds) :
    ∃ later, ofTokens b (.ident "x" :: .assign :: Token.tower b.maxNesting) =
      .pushSymbol "x" :: (List.replicate (3 * b.maxNesting + 4) Recognition.brick ++ later) := by
  obtain ⟨r, hr, hrun⟩ := Recognition.run_tower b.maxNesting [.reduce .assign, .finish] [1]
    [.pushSymbol "x"] (Nat.le_of_eq (Nat.zero_add b.maxNesting))
  obtain ⟨later, hl, -⟩ := Recognition.exists_issued_run b r
  have hstart : (Recognition.start (.ident "x" :: .assign :: Token.tower b.maxNesting)).run b =
      r.run b := (Recognition.run_cons (Recognition.advance_statement_assign "x")).trans hrun
  refine ⟨later.reverse ++ if (r.run b).goals.isEmpty then [] else [.setError], ?_⟩
  rw [ofTokens, hstart, Recognition.script, hl, hr]
  simp

/-- Where there is less room, the calls for the tower overflow the stack. -/
theorem firstExceeded?_tower (b : Bounds) {capacity : Nat} (hc : capacity < 3 * b.maxNesting + 5) :
    (⟨some capacity, none⟩ : Limits).firstExceeded? {}
        (ofTokens b (.ident "x" :: .assign :: Token.tower b.maxNesting)).demands =
      some (.stackOverflow capacity) := by
  let leaves : List Demand := .leaf true :: List.replicate (3 * b.maxNesting + 4) (.leaf false)
  have hleaf : ∀ d ∈ leaves, ∃ named, d = .leaf named := by
    intro d hd
    rcases List.mem_cons.1 hd with rfl | hd
    · exact ⟨true, rfl⟩
    · exact ⟨false, List.eq_of_mem_replicate hd⟩
  have hbranch : .branch 0 ∉ leaves := fun hd => nomatch hleaf _ hd
  have hpeak : capacity < Demand.peak 0 leaves := by
    rw [Demand.peak_of_forall_leaf hleaf, List.length_cons, List.length_replicate]
    omega
  obtain ⟨later, hl⟩ := exists_ofTokens_tower b
  have hds : (ofTokens b (.ident "x" :: .assign :: Token.tower b.maxNesting)).demands =
      leaves ++ demands later := by
    have hbricks : demands (List.replicate (3 * b.maxNesting + 4) Recognition.brick) =
        List.replicate (3 * b.maxNesting + 4) (.leaf false) := List.filterMap_replicate_of_some rfl
    rw [hl, demands_cons rfl, demands_append, hbricks]
    rfl
  have hover : (⟨some capacity, none⟩ : Limits).firstExceeded? {} leaves =
      some (.stackOverflow capacity) :=
    Limits.firstExceeded?_of_lt_peak (Nat.zero_le capacity) hbranch hpeak
  rw [hds, Limits.firstExceeded?_append, hover]
  rfl

end Script

end Arbor
