import Arbor.Proofs.Grammar.Room
import Arbor.Proofs.Session.Grammar
import Arbor.Proofs.Session.Judgement
import Arbor.Proofs.Token.Scan

/-!
# What the limits of a session do to a source

Under limits, the engine of the grammar makes the calls that it makes without, up to the first
that exceeds a limit. So what comes of a source under limits is told by the demands of its calls
and by what comes of it without limits (`Session.result_parse_curb`), and from there:

* a source that gives a tree without limits gives the same tree exactly under limits that allow
  the need of the tree and the number of its names, and what becomes of it and of syntax errors
  under all other limits is told as well (`Session.parse_under_limits`);
* whatever the source is, the nesting of parentheses alone bounds the stack, and the bound cannot
  be improved (`Session.stack_bound_of_nesting`).
-/

namespace Arbor

/-! ### Sources -/

/-- The names in a source, as often as they occur; none if the source is not made of tokens. -/
def namesIn (source : ByteArray) : List String :=
  match String.fromUTF8? source with
  | none => []
  | some text =>
    match Token.scan text with
    | .error _ => []
    | .ok tokens => Token.names tokens

theorem Program.IsReadFrom.namesIn_eq {p : Program} {b : Bounds} {source : ByteArray}
    (hp : p.IsReadFrom b source) : namesIn source = p.names := by
  obtain ⟨⟨text, ht, hscan⟩, -⟩ := hp
  rw [namesIn, fromUTF8?_eq_some_iff.2 ht]
  simp only [hscan]
  rfl

namespace Script

variable {b : Bounds} {source : ByteArray}

/-- The calls for the text of a program are moves, and demand what the nodes of its tree do. -/
theorem moves_ofSource {p : Program} (hp : p.IsReadFrom b source) :
    (∀ op ∈ ofSource b source, op.IsMove) ∧ (ofSource b source).demands = p.node.demands := by
  obtain ⟨⟨text, ht, hscan⟩, hn, hf⟩ := hp
  obtain ⟨moves, hm, hs⟩ := exists_ofTokens b p.tokens
  have hsource : ofSource b source = ofTokens b p.tokens := by
    rw [ofSource, fromUTF8?_eq_some_iff.2 ht]
    simp only [hscan]
  constructor
  · rw [p.run_start hn hf] at hs
    rw [hsource, hs]
    exact List.forall_mem_append.2 ⟨hm, List.forall_mem_nil _⟩
  · rw [hsource, ofTokens_tokens p hn hf, p.demands_script]

/-- The calls for every other source are moves, and a mark of failure behind them. -/
theorem exists_ofSource_of_not (h : ¬∃ p : Program, p.IsReadFrom b source) :
    ∃ moves : Script, (∀ op ∈ moves, op.IsMove) ∧ ofSource b source = moves ++ [.setError] := by
  unfold ofSource
  split
  · exact ⟨[], List.forall_mem_nil _, rfl⟩
  · next text ht =>
    split
    · exact ⟨[], List.forall_mem_nil _, rfl⟩
    · next tokens hscan =>
      obtain ⟨moves, hm, hs⟩ := exists_ofTokens b tokens
      have hgoals : ((Recognition.start tokens).run b).goals ≠ [] := by
        rw [ne_eq, Recognition.run_start_eq_nil_iff]
        rintro ⟨p, rfl, hn, hf⟩
        exact h ⟨p, ⟨text, fromUTF8?_eq_some_iff.1 ht, hscan⟩, hn, hf⟩
      exact ⟨moves, hm, by simp [hs, hgoals]⟩

/-- A mark of failure demands nothing. -/
theorem demands_mark (script : Script) : demands (script ++ [.setError]) = demands script := by
  rw [demands_append]
  exact List.append_nil _

/-- Whatever the source is, its calls make no branch without children. -/
theorem branch_zero_notMem_ofSource (b : Bounds) (source : ByteArray) :
    .branch 0 ∉ (ofSource b source).demands := by
  by_cases hp : ∃ p : Program, p.IsReadFrom b source
  · obtain ⟨p, hp⟩ := hp
    exact branch_zero_notMem_of_moves (moves_ofSource hp).1
  · obtain ⟨moves, hm, hs⟩ := exists_ofSource_of_not hp
    rw [hs, demands_mark]
    exact branch_zero_notMem_of_moves hm

/-- Whatever the source is, its calls are carried out where there are no limits. -/
theorem exists_follow_ofSource {w : Workspace} (b : Bounds) (source : ByteArray) (hw : w.Open)
    (hstack : w.stack.size = 0) (hsymbols : w.symbols.size = 0) :
    ∃ v, w.follow (ofSource b source) = .ok v := by
  by_cases hp : ∃ p : Program, p.IsReadFrom b source
  · obtain ⟨p, hp⟩ := hp
    exact ⟨_, follow_ofSource hp hw hsymbols⟩
  · obtain ⟨v, hv, -⟩ := follow_ofSource_of_not hp hw hstack
    exact ⟨v, hv⟩

/-- Whatever the source is, its calls ask for no more places than the nesting allows. -/
theorem peak_ofSource_le (b : Bounds) (source : ByteArray) :
    Demand.peak 0 (ofSource b source).demands ≤ 3 * b.maxNesting + 5 := by
  unfold ofSource
  split
  · exact Nat.zero_le _
  · split
    · exact Nat.zero_le _
    · exact peak_ofTokens_le b _

end Script

/-- The tree of a program demands a place in the table for every name. -/
theorem Program.IsReadFrom.nameCounts_demands {p : Program} {b : Bounds} {source : ByteArray}
    (hp : p.IsReadFrom b source) : Demand.nameCounts p.node.demands = p.names.length := by
  have hopen : (Workspace.new .unbounded).Open := ⟨rfl, rfl⟩
  obtain ⟨hm, hd⟩ := Script.moves_ofSource hp
  have hfollow := Script.follow_ofSource hp hopen rfl
  obtain ⟨-, he⟩ := Workspace.follow_demands rfl (Script.setError_notMem_of_moves hm) hfollow
  have hn := congrArg Extent.names he
  rw [hd, Workspace.extent, Workspace.size_symbols_built] at hn
  exact (Nat.zero_add _).symm.trans (hn.symm.trans (Nat.zero_add _))

/-! ### Limits -/

namespace ParseTree

/-- The same tree with other limits on its table. -/
def limitTo (tree : ParseTree) (limits : Limits) : ParseTree :=
  { tree with symbols := { tree.symbols with capacity := limits.maxSymbols } }

end ParseTree

/-- What a result becomes under limits, if the demands come before it. -/
def Limits.curb (limits : Limits) (ds : List Demand) (result : Except ParseError ParseTree) :
    Except ParseError ParseTree :=
  match limits.firstExceeded? {} ds with
  | some v => .error (.contract v)
  | none => result.map (·.limitTo limits)

namespace Workspace

variable {w w' : Workspace}

/-- Limits do not change what a workspace comes to. -/
theorem conclude_limitTo (w : Workspace) (limits : Limits) (verdict : Option Violation) :
    ((w.limitTo limits).conclude verdict).1 = (w.conclude verdict).1.map (·.limitTo limits) := by
  cases hf : w.failed with
  | true => simp [conclude, limitTo, hf, Except.map]
  | false =>
    cases hv : w.violation.or verdict with
    | some v => simp [conclude, limitTo, hf, hv, Except.map]
    | none =>
      simp only [conclude, limitTo, BuildStack.setCapacity, hf, hv, Bool.false_eq_true, ↓reduceIte]
      split <;> rfl

/-- What the calls of a script come to in a workspace. -/
def outcome (w : Workspace) (script : Script) : Except ParseError ParseTree :=
  match w.follow script with
  | .ok w => (w.conclude none).1
  | .error v => .error (.contract v)

/-- Under limits, a script that is carried out without comes to the first violation of a limit, or
    to the same. -/
theorem outcome_limitTo {script : Script} (hf : w.failed = false) (he : w.extent = {})
    (hm : .setError ∉ script) (h : w.follow script = .ok w') (limits : Limits) :
    (w.limitTo limits).outcome script = limits.curb script.demands (w.outcome script) := by
  rw [outcome, outcome, follow_limitTo hf hm h, h, he, Limits.curb]
  cases limits.firstExceeded? {} script.demands with
  | some v => rfl
  | none => exact w'.conclude_limitTo limits none

/-- The same for a script that ends with a mark of failure. -/
theorem outcome_limitTo_mark {script : Script} (hf : w.failed = false) (he : w.extent = {})
    (hm : .setError ∉ script) (h : w.follow script = .ok w') (limits : Limits) :
    (w.limitTo limits).outcome (script ++ [.setError]) =
      limits.curb (Script.demands (script ++ [.setError])) (w.outcome (script ++ [.setError])) := by
  rw [outcome, outcome, follow_append, follow_append, follow_limitTo hf hm h, h, he,
    Script.demands_mark, Limits.curb]
  cases limits.firstExceeded? {} script.demands with
  | some v => rfl
  | none => exact Workspace.conclude_limitTo { w' with failed := true } limits none

/-- The workspace of a session once its engine has read all of the source. -/
def fed (limits : Limits) (source : ByteArray) : Workspace :=
  { Workspace.new limits with input := (InputChannel.ofBytes source).readToEnd.2 }

theorem open_fed (source : ByteArray) : (fed .unbounded source).Open := ⟨rfl, rfl⟩

end Workspace

namespace Session

variable (limits : Limits) (uses uses' : List Use) (b : Bounds) (source : ByteArray)

/-- The engine of the grammar reads all of the source, and then makes the calls for it. -/
theorem exists_run_ofGrammar :
    let outcome := ((new limits).after uses).parse (.ofGrammar b) source
    let run := (Engine.ofScript (.ofSource b source)).run (.fed limits source)
    outcome.result = (Workspace.fed limits source).outcome (.ofSource b source) ∧
      ∃ reply, reply.depth = 0 ∧ outcome.exchanges = ⟨.readToEnd, reply⟩ :: run.exchanges := by
  intro outcome run
  have hread : ((Workspace.ready limits source).reply .readToEnd).1.answer = .served source :=
    congrArg Answer.served (InputChannel.readToEnd_ofBytes source)
  obtain ⟨hresult, -, hexchanges⟩ := parse_after limits uses (.ofGrammar b) source
  rw [Engine.ofGrammar, Engine.run_call, hread] at hresult hexchanges
  exact ⟨hresult.trans (Engine.conclude_ofScript _ rfl), _, rfl, hexchanges⟩

/-- Under limits, a source comes to the violation of the first demand that exceeds one, or to what
    it comes to without. -/
theorem result_parse_curb :
    (((new limits).after uses).parse (.ofGrammar b) source).result =
      limits.curb (Script.ofSource b source).demands
        (((new .unbounded).after uses').parse (.ofGrammar b) source).result := by
  rw [(exists_run_ofGrammar limits uses b source).1,
    (exists_run_ofGrammar .unbounded uses' b source).1]
  obtain ⟨v, hv⟩ :=
    Script.exists_follow_ofSource b source (Workspace.open_fed source) rfl rfl
  by_cases hp : ∃ p : Program, p.IsReadFrom b source
  · obtain ⟨p, hp⟩ := hp
    have hm := Script.setError_notMem_of_moves (Script.moves_ofSource hp).1
    exact Workspace.outcome_limitTo rfl rfl hm hv limits
  · obtain ⟨moves, hm, hs⟩ := Script.exists_ofSource_of_not hp
    rw [hs] at hv ⊢
    obtain ⟨w, hw, -⟩ := Workspace.exists_of_follow_append hv
    exact Workspace.outcome_limitTo_mark rfl rfl (Script.setError_notMem_of_moves hm) hw limits

/-- Without limits, a source comes to the tree of its program, or to a syntax error. -/
theorem result_parse_unbounded :
    let result := (((new .unbounded).after uses).parse (.ofGrammar b) source).result
    (∀ p : Program, p.IsReadFrom b source → result = .ok ⟨p.node, .ofList p.names⟩) ∧
      ((¬∃ p : Program, p.IsReadFrom b source) → result = .error .syntaxError) := by
  have hopen := Workspace.open_fed source
  rw [(exists_run_ofGrammar .unbounded uses b source).1, Workspace.outcome]
  constructor
  · intro p hp
    rw [Script.follow_ofSource hp hopen rfl]
    refine (Workspace.conclude_eq_ok rfl rfl rfl).trans ?_
    have hentries : #[] ++ p.names.toArray = p.names.toArray := Array.empty_append
    exact congrArg (fun entries => Except.ok (ParseTree.mk p.node ⟨entries, none⟩)) hentries
  · intro hp
    obtain ⟨v, hv, hf⟩ := Script.follow_ofSource_of_not hp hopen rfl
    rw [hv]
    exact (v.conclude_eq_syntaxError_iff none).2 hf

/-- Without limits, no source is a violation. -/
theorem result_parse_unbounded_ne (v : Violation) :
    (((new .unbounded).after uses).parse (.ofGrammar b) source).result ≠ .error (.contract v) := by
  obtain ⟨hok, herror⟩ := result_parse_unbounded uses b source
  by_cases hp : ∃ p : Program, p.IsReadFrom b source
  · obtain ⟨p, hp⟩ := hp
    rw [hok p hp]
    nofun
  · rw [herror hp]
    nofun

/-- Under limits, a source is a violation if and only if the demand of a call exceeds a limit. -/
theorem result_eq_contract_iff (v : Violation) :
    (((new limits).after uses).parse (.ofGrammar b) source).result = .error (.contract v) ↔
      limits.firstExceeded? {} (Script.ofSource b source).demands = some v := by
  have hfree := result_parse_unbounded_ne [] b source v
  rw [result_parse_curb limits uses [] b source, Limits.curb]
  cases limits.firstExceeded? {} (Script.ofSource b source).demands with
  | some w => simp
  | none =>
    refine iff_of_false (fun h => hfree ?_) nofun
    generalize (((new .unbounded).after []).parse (.ofGrammar b) source).result = free at h
    cases free with
    | error e => exact h
    | ok tree => cases h

/-- The calls of a source without limits. -/
theorem calls_parse_unbounded :
    (((new .unbounded).after uses).parse (.ofGrammar b) source).exchanges.map (·.call) =
      .readToEnd :: (Script.ofSource b source).map .build := by
  obtain ⟨-, reply, -, hx⟩ := exists_run_ofGrammar .unbounded uses b source
  obtain ⟨w, hw⟩ := Script.exists_follow_ofSource b source (Workspace.open_fed source) rfl rfl
  rw [hx, List.map_cons, (Engine.run_ofScript_of_follow hw).1]

/-- The effect of limits on a source. If it gives a tree without limits, it gives the same tree
    under limits that allow the need of the tree and the number of names in the source. Under other
    limits it is a violation, of the limit that the nodes of the tree exceed first in post-order.
    And if it is a syntax error without limits, it is one under limits, unless a call before the
    mark of failure exceeds one: then it is the first violation. -/
theorem parse_under_limits (limits : Limits) (uses uses' : List Use) (b : Bounds)
    (source : ByteArray) :
    let free := ((new .unbounded).after uses').parse (.ofGrammar b) source
    let result := (((new limits).after uses).parse (.ofGrammar b) source).result
    (∀ tree, free.result = .ok tree →
        (limits.Allow tree.root.need (namesIn source).length →
          result = .ok ⟨tree.root, ⟨tree.symbols.entries, limits.maxSymbols⟩⟩) ∧
        (¬limits.Allow tree.root.need (namesIn source).length →
          ∃ v, result = .error (.contract v) ∧
            limits.firstExceeded? {} tree.root.demands = some v ∧
              ((∃ capacity ∈ limits.maxStackDepth, v = .stackOverflow capacity) ∨
                ∃ capacity ∈ limits.maxSymbols, v = .symbolCapacityExceeded capacity))) ∧
      (free.result = .error .syntaxError →
        ∃ script : Script,
          free.exchanges.map (·.call) =
            .readToEnd :: (script.map .build ++ [.build .setError]) ∧
          result =
            match limits.firstExceeded? {} script.demands with
            | some v => .error (.contract v)
            | none => .error .syntaxError) := by
  intro free result
  have hcurb : result = limits.curb (Script.ofSource b source).demands free.result :=
    result_parse_curb limits uses uses' b source
  have hcalls := calls_parse_unbounded uses' b source
  obtain ⟨hok, herror⟩ := result_parse_unbounded uses' b source
  by_cases hp : ∃ p : Program, p.IsReadFrom b source
  · obtain ⟨p, hp⟩ := hp
    have hfree : free.result = .ok ⟨p.node, .ofList p.names⟩ := hok p hp
    rw [(Script.moves_ofSource hp).2, hfree] at hcurb
    refine ⟨fun tree htree => ?_, fun h => nomatch hfree.symm.trans h⟩
    obtain rfl : (⟨p.node, .ofList p.names⟩ : ParseTree) = tree :=
      Except.ok.inj (hfree.symm.trans htree)
    -- The demands of the tree tell whether a limit is exceeded, and need and names tell the same.
    have hiff : limits.firstExceeded? {} p.node.demands = none ↔
        limits.Allow p.node.need (namesIn source).length := by
      rw [Limits.firstExceeded?_eq_none_iff limits.allow_zero p.node.branch_zero_notMem_demands,
        Node.peak_demands, hp.nameCounts_demands, hp.namesIn_eq]
      simp only [Nat.zero_add]
    constructor
    · intro ha
      rw [hcurb, Limits.curb, hiff.2 ha]
      rfl
    · intro ha
      obtain ⟨v, hv⟩ := Option.ne_none_iff_exists'.1 (mt hiff.1 ha)
      refine ⟨v, by rw [hcurb, Limits.curb, hv], hv, ?_⟩
      rcases Limits.firstExceeded?_eq_some hv with ⟨c, hc, -, rfl⟩ | ⟨c, hc, -, rfl⟩
      · exact .inl ⟨c, hc, rfl⟩
      · exact .inr ⟨c, hc, rfl⟩
  · have hfree : free.result = .error .syntaxError := herror hp
    obtain ⟨moves, -, hs⟩ := Script.exists_ofSource_of_not hp
    rw [hs, Script.demands_mark, hfree] at hcurb
    refine ⟨fun tree htree => (nomatch hfree.symm.trans htree), fun _ => ⟨moves, ?_, hcurb⟩⟩
    rw [hcalls, hs, List.map_append]
    rfl

/-- The tree of `x = 1 + y` needs room for three trees and two names. With room for two trees there
    is no place for the leaf of `y`, and with room for one the stack overflows before `x = 1 +`
    turns out to be no program. -/
theorem parse_under_limits_sum :
    ((new ⟨some 3, some 2⟩).parse (.ofGrammar {}) "x = 1 + y".toUTF8).result =
        .ok ⟨.branch .assign [.leaf .symbol 0, .branch .add [.leaf .number 1, .leaf .symbol 1]],
          ⟨#["x", "y"], some 2⟩⟩ ∧
      ((new ⟨some 2, some 2⟩).parse (.ofGrammar {}) "x = 1 + y".toUTF8).result =
        .error (.contract (.stackOverflow 2)) ∧
      ((new ⟨some 1, some 2⟩).parse (.ofGrammar {}) "x = 1 +".toUTF8).result =
        .error (.contract (.stackOverflow 1)) := by
  have hsum : Script.ofSource {} "x = 1 + y".toUTF8 = [.pushSymbol "x", .pushNumber 1,
      .pushSymbol "y", .reduce .add 2, .reduce .assign 2] := by decide +kernel
  have hcut : Script.ofSource {} "x = 1 +".toUTF8 = [.pushSymbol "x", .pushNumber 1, .setError] := by
    decide +kernel
  have hnames : (namesIn "x = 1 + y".toUTF8).length = 2 := by decide +kernel
  let tree : ParseTree :=
    ⟨.branch .assign [.leaf .symbol 0, .branch .add [.leaf .number 1, .leaf .symbol 1]],
      .ofList ["x", "y"]⟩
  have hfree : ((new .unbounded).parse (.ofGrammar {}) "x = 1 + y".toUTF8).result = .ok tree := by
    refine (exists_run_ofGrammar .unbounded [] {} "x = 1 + y".toUTF8).1.trans ?_
    rw [hsum]
    rfl
  have hfree' : ((new .unbounded).parse (.ofGrammar {}) "x = 1 +".toUTF8).result =
      .error .syntaxError := by
    refine (exists_run_ofGrammar .unbounded [] {} "x = 1 +".toUTF8).1.trans ?_
    rw [hcut]
    rfl
  refine ⟨?_, ?_, ?_⟩
  · have hallow : (⟨some 3, some 2⟩ : Limits).Allow tree.root.need
        (namesIn "x = 1 + y".toUTF8).length := by
      rw [hnames]
      exact ⟨by decide, by decide⟩
    exact ((parse_under_limits ⟨some 3, some 2⟩ [] [] {} "x = 1 + y".toUTF8).1 tree hfree).1 hallow
  · have hneed : ¬(⟨some 2, some 2⟩ : Limits).Allow tree.root.need
        (namesIn "x = 1 + y".toUTF8).length := fun h => absurd (h.1 2 rfl) (by decide)
    obtain ⟨v, hv, hfirst, -⟩ :=
      ((parse_under_limits ⟨some 2, some 2⟩ [] [] {} "x = 1 + y".toUTF8).1 tree hfree).2 hneed
    cases hfirst
    exact hv
  · obtain ⟨script, hs, hv⟩ :=
      (parse_under_limits ⟨some 1, some 2⟩ [] [] {} "x = 1 +".toUTF8).2 hfree'
    have hcalls := calls_parse_unbounded [] {} "x = 1 +".toUTF8
    rw [hcut] at hcalls
    have hbuild : script.map Call.build ++ [.build .setError] =
        [BuildOp.pushSymbol "x", .pushNumber 1].map Call.build ++ [.build .setError] :=
      (List.cons.inj (hs.symm.trans hcalls)).2
    obtain rfl : script = [.pushSymbol "x", .pushNumber 1] :=
      (List.map_inj_right fun _ _ => Call.build.inj).1 (List.append_cancel_right hbuild)
    exact hv

end Session

/-! ### The limit on the stack -/

/-- The default limit on the stack leaves room for what the default nesting allows. -/
theorem Limits.room_default : ∀ capacity ∈ ({} : Limits).maxStackDepth,
    3 * ({} : Bounds).maxNesting + 5 ≤ capacity := by decide

namespace Session

variable (limits : Limits) (uses : List Use) (b : Bounds) (source : ByteArray)

/-- The engine of the grammar never learns of more trees than the nesting allows. -/
theorem depth_le_of_exchange {x : Exchange}
    (hx : x ∈ (((new limits).after uses).parse (.ofGrammar b) source).exchanges) :
    x.reply.depth ≤ 3 * b.maxNesting + 5 := by
  obtain ⟨-, reply, hreply, hexchanges⟩ := exists_run_ofGrammar limits uses b source
  rw [hexchanges] at hx
  rcases List.mem_cons.1 hx with rfl | hx
  · exact hreply ▸ Nat.zero_le _
  · exact Engine.forall_depth_le_of_ofScript (Nat.zero_le _) (fun _ => Script.peak_ofSource_le b source)
      x hx

/-- In a session with room for what the nesting allows, the only violation is that of the symbol
    table, and a source runs into it if its calls bring more names than the table takes. -/
theorem result_eq_contract_iff_of_room
    (hl : ∀ capacity ∈ limits.maxStackDepth, 3 * b.maxNesting + 5 ≤ capacity) (v : Violation) :
    (((new limits).after uses).parse (.ofGrammar b) source).result = .error (.contract v) ↔
      ∃ capacity ∈ limits.maxSymbols,
        capacity < Demand.nameCounts (Script.ofSource b source).demands ∧
          v = .symbolCapacityExceeded capacity := by
  have hpeak (capacity : Nat) (hc : capacity ∈ limits.maxStackDepth) :
      Demand.peak 0 (Script.ofSource b source).demands ≤ capacity :=
    Nat.le_trans (Script.peak_ofSource_le b source) (hl capacity hc)
  have hiff := Limits.firstExceeded?_eq_some_iff (e := {}) (v := v) hpeak limits.allow_zero.2
    (Script.branch_zero_notMem_ofSource b source)
  rw [Nat.zero_add] at hiff
  exact (result_eq_contract_iff limits uses b source v).trans hiff

/-- A session with room for what the nesting allows is never short of it. -/
theorem result_ne_stackOverflow
    (hl : ∀ capacity ∈ limits.maxStackDepth, 3 * b.maxNesting + 5 ≤ capacity) (c : Nat) :
    (((new limits).after uses).parse (.ofGrammar b) source).result ≠
      .error (.contract (.stackOverflow c)) := by
  rw [ne_eq, result_eq_contract_iff_of_room limits uses b source hl]
  rintro ⟨_, -, -, hv⟩
  cases hv

/-- Parentheses alone decide how much of the stack a source takes. Where they nest `n` deep at
    most, there are never more than `3 * n + 5` trees on the stack, whatever the source is and
    however tall trees may be; so a session that has room for these never overflows, and one with
    the limits that sessions have by default does not. But for every smaller room there is a
    source that does not fit. -/
theorem stack_bound_of_nesting (b : Bounds) :
    (∀ limits uses source, ∀ x ∈ (((new limits).after uses).parse (.ofGrammar b) source).exchanges,
        x.reply.depth ≤ 3 * b.maxNesting + 5) ∧
      (∀ limits : Limits, (∀ capacity ∈ limits.maxStackDepth, 3 * b.maxNesting + 5 ≤ capacity) →
        ∀ uses source c, (((new limits).after uses).parse (.ofGrammar b) source).result ≠
          .error (.contract (.stackOverflow c))) ∧
      (∀ uses source c, (((new {}).after uses).parse (.ofGrammar {}) source).result ≠
        .error (.contract (.stackOverflow c))) ∧
      ∀ capacity < 3 * b.maxNesting + 5, ∃ source, ∀ uses,
        (((new ⟨some capacity, none⟩).after uses).parse (.ofGrammar b) source).result =
          .error (.contract (.stackOverflow capacity)) := by
  refine ⟨fun limits uses source x hx => depth_le_of_exchange limits uses b source hx,
    fun limits hl uses source c => result_ne_stackOverflow limits uses b source hl c,
    fun uses source c => ?_, fun capacity hc => ?_⟩
  · exact result_ne_stackOverflow {} uses {} source Limits.room_default c
  · let tokens : List Token := .ident "x" :: .assign :: Token.tower b.maxNesting
    refine ⟨(Token.line tokens).toUTF8, fun uses => ?_⟩
    have hscan : Token.scan (Token.line tokens) = .ok tokens := Token.scan_line <|
      List.forall_mem_cons.2 ⟨by decide +kernel, List.forall_mem_cons.2
        ⟨by decide +kernel, Token.isSpelled_of_mem_tower⟩⟩
    have hsource : Script.ofSource b (Token.line tokens).toUTF8 = .ofTokens b tokens := by
      rw [Script.ofSource, fromUTF8?_eq_some_iff.2 rfl]
      simp only [hscan]
    rw [result_eq_contract_iff ⟨some capacity, none⟩ uses b, hsource]
    exact Script.firstExceeded?_tower b hc

/-- Without parentheses, five places are enough, and four are not. -/
theorem stack_bound_of_nesting_zero :
    (∀ source c, ((new ⟨some 5, none⟩).parse (.ofGrammar ⟨0, 0⟩) source).result ≠
        .error (.contract (.stackOverflow c))) ∧
      ∃ source, ((new ⟨some 4, none⟩).parse (.ofGrammar ⟨0, 0⟩) source).result =
        .error (.contract (.stackOverflow 4)) := by
  obtain ⟨-, hroom, -, htight⟩ := stack_bound_of_nesting ⟨0, 0⟩
  refine ⟨hroom ⟨some 5, none⟩ (by decide) [], ?_⟩
  obtain ⟨source, h⟩ := htight 4 (by decide)
  exact ⟨source, h []⟩

end Session

end Arbor
