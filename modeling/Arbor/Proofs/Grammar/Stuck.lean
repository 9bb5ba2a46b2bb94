import Mathlib.Algebra.GroupWithZero.Nat
import Mathlib.Data.List.Infix
import Arbor.Proofs.Grammar.Room

/-!
# Where recognition gets stuck

If the bounds are ample, then recognition inside a statement gets stuck only on a token
(`Recognition.Ample.blocked`), and what it has taken in by then is all that can be completed
(`Recognition.exists_longest`). There are two halves to this:

* what was taken in can be completed, since one token or none meets the goal that comes next,
  whichever it is (`Recognition.run_completion`), and
* recognition looks one token beyond what it takes in (`Recognition.Leads`), so that it gets stuck in
  the same place on all tokens that agree so far.
-/

namespace Arbor

/-! ### Pushes -/

namespace BuildOp

/-- The call pushes a leaf. -/
def isPush : BuildOp → Bool
  | reduce _ _ | setError => false
  | _ => true

end BuildOp

namespace Script

/-- The calls that push leaves. -/
def pushes (script : Script) : Script := script.filter BuildOp.isPush

theorem pushes_append (s t : Script) : pushes (s ++ t) = pushes s ++ pushes t := List.filter_append ..

/-- Only pushes bring names. -/
theorem filterMap_name?_pushes (script : Script) :
    (pushes script).filterMap (·.name?) = script.filterMap (·.name?) := by
  rw [pushes, List.filterMap_filter]
  congr 1
  funext op
  cases op <;> rfl

end Script

namespace Token

/-- The calls that push the leaves of the literals and names among the tokens. -/
def leaves (tokens : List Token) : Script := tokens.filterMap leaf?

theorem leaves_append (ts us : List Token) : leaves (ts ++ us) = leaves ts ++ leaves us :=
  List.filterMap_append

/-- The leaves bring the names of the tokens. -/
theorem filterMap_name?_leaves (tokens : List Token) :
    (leaves tokens).filterMap (·.name?) = names tokens := by
  rw [leaves, List.filterMap_filterMap, names]
  congr 1
  funext t
  cases t <;> rfl

theorem leaves_replicate (n : Nat) : leaves (List.replicate n .terminator) = [] :=
  List.filterMap_replicate_of_none rfl

/-- No operator comes first in `others` unless it does in `rest`. -/
def NoNewOperator (rest others : List Token) : Prop :=
  ∀ t ∈ others.head?, rest.head? = some t ∨ ∀ level : Level, level.operator? t = none

theorem NoNewOperator.append {rest others : List Token} (h : NoNewOperator rest others) :
    ∀ taken : List Token, NoNewOperator (taken ++ rest) (taken ++ others)
  | [] => h
  | _ :: _ => fun _ ht => .inl ht

/-- What stops a level still does. -/
theorem NoNewOperator.stops {rest others : List Token} {level : Level} (h : NoNewOperator rest others)
    (hs : ∀ t ∈ rest.head?, level.operator? t = none) : ∀ t ∈ others.head?, level.operator? t = none :=
  fun t ht => (h t ht).elim (hs t) fun hnone => hnone level

end Token

/-! ### Goals -/

namespace Goal

/-- How many of the goals wait for a tree. -/
def phrases : List Goal → Nat
  | [] => 0
  | statement :: goals => phrases goals + 1
  | expression _ :: goals => phrases goals + 1
  | value :: goals => phrases goals + 1
  | _ :: goals => phrases goals

theorem phrases_goal_cons (part : Option Level) (goals : List Goal) :
    phrases (Level.goal part :: goals) = phrases goals + 1 := by
  cases part <;> rfl

/-- The goals are parts of a statement, and the end of the program behind them. -/
def AreInner : List Goal → Prop
  | [] => False
  | goal :: goals => goal ≠ statement ∧ goal ≠ finish ∧ AreInner goals ∨ goal = finish ∧ goals = []

theorem AreInner.cons {goal : Goal} {goals : List Goal} (h : AreInner goals) (hs : goal ≠ .statement)
    (hf : goal ≠ .finish) : AreInner (goal :: goals) := .inl ⟨hs, hf, h⟩

theorem AreInner.tail {goal : Goal} {goals : List Goal} (h : AreInner (goal :: goals))
    (hne : goal ≠ .finish) : AreInner goals :=
  h.elim (fun h => h.2.2) fun h => absurd h.1 hne

theorem areInner_goal_cons (part : Option Level) (goals : List Goal) :
    AreInner (Level.goal part :: goals) ↔ AreInner goals := by
  cases part <;> simp [AreInner, Level.goal]

theorem not_areInner_statement (goals : List Goal) : ¬AreInner (.statement :: goals) := by
  rintro (⟨h, -⟩ | ⟨h, -⟩)
  · exact h rfl
  · cases h

theorem eq_nil_of_areInner_finish {goals : List Goal} (h : AreInner (.finish :: goals)) : goals = [] :=
  h.elim (fun h => absurd rfl h.2.1) And.right

/-- Tokens that meet the goal, or the next one where the goal needs none. -/
def completion : Goal → List Token
  | statement | expression _ | value => [.nil]
  | close => [.rightParen]
  | _ => []

theorem operator?_completion (goals : List Goal) :
    ∀ level : Level, ∀ t ∈ (goals.flatMap completion).head?, level.operator? t = none := by
  intro level t ht
  obtain ⟨goal, -, hgoal⟩ := List.mem_flatMap.1 (List.mem_of_mem_head? ht)
  obtain rfl | rfl : t = .nil ∨ t = .rightParen := by cases goal <;> simp_all [completion]
  · cases level <;> rfl
  · cases level <;> rfl

/-- The tokens rule the goal out, whatever the bounds are. -/
def Blocked : Goal → List Token → Prop
  | value, rest => ∀ t ∈ rest.head?, t.leaf? = none ∧ t ≠ .leftParen
  | close, rest => rest.head? ≠ some .rightParen
  | finish, rest => ∃ t ∈ rest, t ≠ .terminator
  | _, _ => False

/-- What blocks a goal is the end of the tokens, or the first token; in front of the end of a program
    it is the first token other than an end of a statement. -/
theorem Blocked.exists_trailing {goal : Goal} {rest : List Token} (h : goal.Blocked rest) :
    ∃ m rest', rest = List.replicate m .terminator ++ rest' ∧ (m = 0 ∨ goal = finish) ∧
      ∀ t more, rest' = t :: more → ∀ others,
        goal.Blocked (List.replicate m .terminator ++ t :: others) := by
  cases goal with
  | value =>
    refine ⟨0, rest, rfl, .inl rfl, ?_⟩
    rintro t more rfl others
    exact h
  | close =>
    refine ⟨0, rest, rfl, .inl rfl, ?_⟩
    rintro t more rfl others
    exact h
  | finish =>
    obtain ⟨m, hm⟩ := Recognition.exists_eq_replicate_append rest
    refine ⟨m, _, hm, .inr rfl, fun t more ht others => ⟨t, by simp, ?_⟩⟩
    have hhead := List.head?_dropWhile_not (· = Token.terminator) rest
    rw [ht] at hhead
    simpa using hhead
  | _ => exact h.elim

end Goal

/-- Bounds are at most others if both of them are. -/
instance : LE Bounds := ⟨fun b c => b.maxNesting ≤ c.maxNesting ∧ b.maxDepth ≤ c.maxDepth⟩

theorem Bounds.le_refl (b : Bounds) : b ≤ b := ⟨Nat.le_refl _, Nat.le_refl _⟩

namespace Recognition

variable {b c : Bounds} {r s t : Recognition} {goals : List Goal} {nesting : Nat}
  {heights : List Nat} {issued : Script}

/-! ### What comes behind does not matter -/

/-- Recognition gets from `r` to `s` by taking in some tokens, and pushes their leaves. It does so
    whatever tokens come behind, as long as no other operator comes first, and under wider bounds. -/
structure Leads (b : Bounds) (r s : Recognition) (taken : List Token) : Prop where
  rest_eq : r.rest = taken ++ s.rest
  pushes_eq : Script.pushes s.issued.reverse = Script.pushes r.issued.reverse ++ Token.leaves taken
  run_eq : ∀ c, b ≤ c → ∀ others, Token.NoNewOperator s.rest others →
    run c { r with rest := taken ++ others } = run c { s with rest := others }

theorem leads_refl (b : Bounds) (r : Recognition) : Leads b r r [] :=
  ⟨rfl, (List.append_nil _).symm, fun _ _ _ _ => rfl⟩

theorem Leads.trans {ts us : List Token} (h : Leads b r s ts) (h' : Leads b s t us) :
    Leads b r t (ts ++ us) := by
  refine ⟨?_, ?_, fun c hc others ho => ?_⟩
  · rw [h.rest_eq, h'.rest_eq, List.append_assoc]
  · rw [h'.pushes_eq, h.pushes_eq, Token.leaves_append, List.append_assoc]
  · have hs : Token.NoNewOperator s.rest (us ++ others) := h'.rest_eq ▸ ho.append us
    rw [List.append_assoc, h.run_eq c hc _ hs, h'.run_eq c hc others ho]

/-- A move inside a statement takes in a token or none. -/
theorem Move.leads (h : Move b r s) (hr : Goal.AreInner r.goals) (hs : s.goals ≠ []) :
    ∃ taken, Leads b r s taken := by
  have hpush (op : BuildOp) (issued : Script) :
      Script.pushes (op :: issued).reverse = Script.pushes issued.reverse ++ Script.pushes [op] := by
    rw [List.reverse_cons, Script.pushes_append]
  cases h with
  | assign | plain => exact absurd hr (Goal.not_areInner_statement _)
  | finish => exact absurd (Goal.eq_nil_of_areInner_finish hr) hs
  | descend level =>
    exact ⟨[], rfl, (List.append_nil _).symm, fun c _ others _ => (descend level).run_eq⟩
  | stop hstop =>
    exact ⟨[], rfl, (List.append_nil _).symm, fun c _ others ho => (stop (ho.stops hstop)).run_eq⟩
  | reduce kind hb =>
    exact ⟨[], rfl, hpush _ _, fun c hc others _ => (reduce kind (Nat.le_trans hb hc.2)).run_eq⟩
  | operator operator =>
    refine ⟨[operator.token], rfl, ?_, fun c _ others _ => (Move.operator operator).run_eq⟩
    cases operator <;> exact (List.append_nil _).symm
  | atom a =>
    refine ⟨[a.token], rfl, ?_, fun c _ others _ => (atom a).run_eq⟩
    rw [hpush]
    cases a <;> rfl
  | paren hlt =>
    exact ⟨[.leftParen], rfl, (List.append_nil _).symm,
      fun c hc others _ => (paren (Nat.lt_of_lt_of_le hlt hc.1)).run_eq⟩
  | close => exact ⟨[.rightParen], rfl, (List.append_nil _).symm, fun c _ others _ => close.run_eq⟩

/-! ### What was taken in can be completed -/

/-- The bounds leave room for all that can come: for parentheses of the tokens left, and for a tree
    over all trees built, those waited for and those of the tokens left. -/
structure Ample (b : Bounds) (r : Recognition) : Prop where
  inner : Goal.AreInner r.goals
  ready : Goal.Ready r.goals r.heights.length
  pos : ∀ height ∈ r.heights, 0 < height
  nesting_le : r.nesting + r.rest.length ≤ b.maxNesting
  depth_le : r.heights.sum + Goal.phrases r.goals + r.rest.length ≤ b.maxDepth

/-- Over two trees goes one that is no taller than both together. -/
theorem pair_le {right left : Nat} (hp : ∀ height ∈ right :: left :: heights, 0 < height) :
    (∀ height ∈ (1 + max right (max left 0)) :: heights, 0 < height) ∧
      ((1 + max right (max left 0)) :: heights).sum ≤ (right :: left :: heights).sum := by
  obtain ⟨hright, hp⟩ := List.forall_mem_cons.1 hp
  obtain ⟨hleft, hp⟩ := List.forall_mem_cons.1 hp
  refine ⟨List.forall_mem_cons.2 ⟨by omega, hp⟩, ?_⟩
  simp only [List.sum_cons]
  omega

/-- A move inside a statement stays there, or it is the last one. -/
theorem Move.inner (h : Move b r s) (hi : Goal.AreInner r.goals) :
    s.goals = [] ∨ Goal.AreInner s.goals := by
  cases h with
  | assign | plain => exact absurd hi (Goal.not_areInner_statement _)
  | finish => exact .inl (Goal.eq_nil_of_areInner_finish hi)
  | descend => exact .inr ((Goal.areInner_goal_cons _ _).2 (.cons (hi.tail nofun) nofun nofun))
  | operator => exact .inr ((Goal.areInner_goal_cons _ _).2 (.cons hi nofun nofun))
  | paren => exact .inr (.cons (.cons (hi.tail nofun) nofun nofun) nofun nofun)
  | _ => exact .inr (hi.tail nofun)

/-- Every parenthesis takes a token. -/
theorem Move.nesting_le (h : Move b r s) :
    s.nesting + s.rest.length ≤ r.nesting + r.rest.length := by
  cases h <;> simp only [List.length_cons, List.length_nil] <;> omega

/-- Every tree more that is built or waited for takes a token, and a pair is no taller than its trees
    together. -/
theorem Move.heights_le (h : Move b r s) (hr : Goal.Ready r.goals r.heights.length)
    (hp : ∀ height ∈ r.heights, 0 < height) :
    (∀ height ∈ s.heights, 0 < height) ∧
      s.heights.sum + Goal.phrases s.goals + s.rest.length ≤
        r.heights.sum + Goal.phrases r.goals + r.rest.length := by
  cases h with
  | assign | atom =>
    refine ⟨List.forall_mem_cons.2 ⟨Nat.one_pos, hp⟩, ?_⟩
    simp only [List.length_cons, List.sum_cons, Goal.phrases]
    omega
  | reduce kind =>
    obtain ⟨right, left, heights, rfl⟩ := Goal.exists_of_ready_reduce hr
    obtain ⟨hpos, hle⟩ := pair_le hp
    exact ⟨hpos, Nat.add_le_add_right (Nat.add_le_add_right hle _) _⟩
  | _ =>
    refine ⟨hp, ?_⟩
    simp only [List.length_cons, List.length_nil, Goal.phrases, Goal.phrases_goal_cons]
    omega

/-- A move leaves room, or it is the last one. -/
theorem Ample.move (h : Ample b r) (hm : Move b r s) : s.goals = [] ∨ Ample b s := by
  obtain ⟨hpos, hle⟩ := hm.heights_le h.ready h.pos
  exact (hm.inner h.inner).imp_right fun hinner =>
    ⟨hinner, hm.ready h.ready, hpos, Nat.le_trans hm.nesting_le h.nesting_le,
      Nat.le_trans hle h.depth_le⟩

/-- One token for each goal left, or none, is all that is wanting. -/
theorem run_completion (hi : Goal.AreInner goals) (hr : Goal.Ready goals heights.length)
    (hp : ∀ height ∈ heights, 0 < height) (hn : nesting ≤ b.maxNesting)
    (hd : heights.sum + Goal.phrases goals ≤ b.maxDepth) :
    (run b ⟨goals, goals.flatMap Goal.completion, nesting, heights, issued⟩).goals = [] := by
  induction goals generalizing nesting heights issued with
  | nil => exact hi.elim
  | cons goal goals ih =>
    have hatom (part : Option Level) (hi : Goal.AreInner goals)
        (hr : Goal.Ready goals (heights.length + 1))
        (hd : heights.sum + (Goal.phrases goals + 1) ≤ b.maxDepth) :
        (run b ⟨Level.goal part :: goals, .nil :: goals.flatMap Goal.completion, nesting, heights,
          issued⟩).goals = [] := by
      have hstops : Level.Stops part (goals.flatMap Goal.completion) :=
        Level.stops_of_forall (Goal.operator?_completion goals)
      have hrun : run b ⟨Level.goal part :: goals, .nil :: goals.flatMap Goal.completion, nesting,
          heights, issued⟩ = run b ⟨goals, goals.flatMap Goal.completion, nesting, 1 :: heights,
            Atom.nil.op :: issued⟩ := run_atom .nil hstops hn
      rw [hrun]
      refine ih hi hr (List.forall_mem_cons.2 ⟨Nat.one_pos, hp⟩) hn ?_
      rw [List.sum_cons]
      omega
    rcases hi with ⟨hstatement, hfinish, hi⟩ | ⟨rfl, rfl⟩
    · cases goal with
      | statement => exact absurd rfl hstatement
      | finish => exact absurd rfl hfinish
      | expression level => exact hatom (some level) hi hr hd
      | value => exact hatom none hi hr hd
      | more level =>
        have hstop := Goal.operator?_completion goals level
        exact (congrArg Recognition.goals (Move.stop hstop).run_eq).trans (ih hi hr.2 hp hn hd)
      | close =>
        have hn := Nat.le_trans (Nat.sub_le nesting 1) hn
        exact (congrArg Recognition.goals Move.close.run_eq).trans (ih hi hr hp hn hd)
      | reduce kind =>
        obtain ⟨right, left, heights, rfl⟩ := Goal.exists_of_ready_reduce hr
        obtain ⟨hpos, hle⟩ := pair_le hp
        have hd := Nat.le_trans (Nat.add_le_add_right hle _) hd
        have hpair : 1 + max right (max left 0) ≤ b.maxDepth := by
          rw [List.sum_cons] at hd
          omega
        have hmove : Move b ⟨.reduce kind :: goals, goals.flatMap Goal.completion, nesting,
            right :: left :: heights, issued⟩ _ := .reduce kind hpair
        exact (congrArg Recognition.goals hmove.run_eq).trans (ih hi hr.2.2 hpos hn hd)
    · exact congrArg Recognition.goals ((run_cons (advance_finish 0)).trans run_nil)

/-! ### Where recognition gets stuck -/

/-- A goal that is blocked cannot be met. -/
theorem advance_eq_none {goal : Goal} {rest : List Token} (h : goal.Blocked rest) :
    advance b goal ⟨goals, rest, nesting, heights, issued⟩ = none := by
  cases hs : advance b goal ⟨goals, rest, nesting, heights, issued⟩ with
  | none => rfl
  | some s =>
    cases move_of_advance hs with
    | atom a => exact absurd (h _ rfl).1 (by cases a <;> nofun)
    | paren => exact absurd rfl (h _ rfl).2
    | close => exact absurd rfl h
    | finish m =>
      obtain ⟨t, ht, hne⟩ := h
      exact absurd (List.eq_of_mem_replicate ht) hne
    | _ => exact h.elim

/-- No bounds help a goal that is blocked. -/
theorem goals_run_ne_nil {goal : Goal} (hg : r.goals = goal :: goals) (h : goal.Blocked r.rest)
    (c : Bounds) : (r.run c).goals ≠ [] := by
  obtain ⟨_, rest, nesting, heights, issued⟩ := r
  cases hg
  rw [run_eq c goal ⟨goals, rest, nesting, heights, issued⟩, advance_eq_none h]
  exact List.cons_ne_nil _ _

/-- If the bounds are ample, only the tokens can keep a goal from being met. -/
theorem Ample.blocked {goal : Goal} (h : Ample b r) (hg : r.goals = goal :: goals)
    (hnone : advance b goal { r with goals } = none) : goal.Blocked r.rest := by
  obtain ⟨_, rest, nesting, heights, issued⟩ := r
  cases hg
  cases goal with
  | statement | expression | more => cases hnone
  | value =>
    intro t ht
    obtain ⟨ts, rfl⟩ : ∃ ts, rest = t :: ts := List.head?_eq_some_iff.1 ht
    constructor
    · cases hleaf : t.leaf? with
      | none => rfl
      | some op => simp [advance, value, hleaf] at hnone
    · rintro rfl
      have hn : nesting + (ts.length + 1) ≤ b.maxNesting := h.nesting_le
      have hlt : nesting < b.maxNesting := by omega
      rw [advance_paren hlt] at hnone
      cases hnone
  | close =>
    intro hr
    obtain ⟨ts, rfl⟩ := List.head?_eq_some_iff.1 hr
    cases hnone
  | reduce kind =>
    obtain ⟨right, left, heights, rfl⟩ := Goal.exists_of_ready_reduce h.ready
    have hle := (pair_le h.pos).2
    have hd : (right :: left :: heights).sum + _ + _ ≤ b.maxDepth := h.depth_le
    have hpair : 1 + max left right ≤ b.maxDepth := by
      rw [List.sum_cons] at hle
      omega
    rw [advance_reduce hpair] at hnone
    cases hnone
  | finish =>
    by_contra hall
    have hrest : ∀ t ∈ rest, t = .terminator := fun t ht => by_contra fun hne => hall ⟨t, ht, hne⟩
    rw [List.eq_replicate_of_mem hrest, advance_finish] at hnone
    cases hnone

/-- A run with ample bounds meets all goals, or it leads to where a goal is blocked. -/
theorem Ample.run (h : Ample b r) : (r.run b).goals = [] ∨
    ∃ taken goal goals, Leads b r (r.run b) taken ∧ Ample b (r.run b) ∧
      (r.run b).goals = goal :: goals ∧ goal.Blocked (r.run b).rest := by
  have hrun : (r.run b).goals = [] ∨ ∃ taken, Leads b r (r.run b) taken ∧ Ample b (r.run b) := by
    refine run_induction (P := fun s => s.goals = [] ∨ ∃ taken, Leads b r s taken ∧ Ample b s)
      (.inr ⟨[], leads_refl b r, h⟩) ?_
    rintro s t hm (hnil | ⟨taken, hleads, hs⟩)
    · cases hm <;> cases hnil
    · by_cases hnil : t.goals = []
      · exact .inl hnil
      · obtain ⟨us, hus⟩ := hm.leads hs.inner hnil
        exact .inr ⟨taken ++ us, hleads.trans hus, (hs.move hm).resolve_left hnil⟩
  refine hrun.imp_right ?_
  rintro ⟨taken, hleads, hs⟩
  cases hg : (r.run b).goals with
  | nil =>
    have hinner := hs.inner
    rw [hg] at hinner
    exact hinner.elim
  | cons goal goals =>
    exact ⟨taken, goal, goals, hleads, hs, rfl, hs.blocked hg (advance_run_eq_none hg)⟩

/-- Wherever recognition is with ample bounds, some tokens meet all goals left. Behind a whole
    statement, ends of statements may come first. -/
theorem Ample.exists_completion {goal : Goal} {m : Nat} (h : Ample b r) (hg : r.goals = goal :: goals)
    (hm : m = 0 ∨ goal = .finish) :
    ∃ others, Token.NoNewOperator r.rest (List.replicate m .terminator ++ others) ∧
      (Recognition.run b { r with rest := List.replicate m .terminator ++ others }).goals = [] := by
  obtain ⟨_, rest, nesting, heights, issued⟩ := r
  cases hg
  rcases hm with rfl | rfl
  · refine ⟨(goal :: goals).flatMap Goal.completion, fun t ht => .inr fun level => ?_, ?_⟩
    · exact Goal.operator?_completion _ level t ht
    · exact run_completion h.inner h.ready h.pos (Nat.le_of_add_right_le h.nesting_le)
        (Nat.le_of_add_right_le h.depth_le)
  · obtain rfl := Goal.eq_nil_of_areInner_finish h.inner
    refine ⟨[], fun t ht => .inr fun level => ?_, ?_⟩
    · rw [List.append_nil] at ht
      obtain rfl := List.eq_of_mem_replicate (List.mem_of_mem_head? ht)
      cases level <;> rfl
    · rw [List.append_nil, run_cons (advance_finish m), run_nil]

/-- Among the tokens that begin what is left, recognition takes in the longest that can be completed,
    but for ends of statements behind them. They can be completed within the bounds, and all longer
    ones under no wider bounds. -/
theorem exists_longest (h : Ample b r) (hleft : (r.run b).goals ≠ []) :
    ∃ viable, viable <+: r.rest ∧
      Script.pushes (r.run b).issued.reverse = Script.pushes r.issued.reverse ++ Token.leaves viable ∧
      (∃ others, (run b { r with rest := viable ++ others }).goals = []) ∧
      ∀ c, b ≤ c → ∀ tokens others, tokens <+: r.rest →
        (run c { r with rest := tokens ++ others }).goals = [] → tokens <+: viable := by
  obtain ⟨taken, goal, goals, hleads, hs, hg, hblocked⟩ := h.run.resolve_left hleft
  obtain ⟨m, rest', hrest, hm, hnext⟩ := hblocked.exists_trailing
  have hviable : r.rest = (taken ++ List.replicate m .terminator) ++ rest' := by
    rw [hleads.rest_eq, hrest, List.append_assoc]
  obtain ⟨others, hsame, hmeets⟩ := hs.exists_completion hg hm
  refine ⟨taken ++ List.replicate m .terminator, ⟨rest', hviable.symm⟩, ?_, ⟨others, ?_⟩, ?_⟩
  · rw [hleads.pushes_eq, Token.leaves_append, Token.leaves_replicate, List.append_nil]
  · rw [List.append_assoc, hleads.run_eq b b.le_refl _ hsame]
    exact hmeets
  · intro c hc tokens others htokens hrun
    by_contra hnot
    obtain ⟨more, rfl⟩ := (List.prefix_or_prefix_of_prefix htokens ⟨rest', hviable.symm⟩).resolve_left hnot
    rw [hviable, List.prefix_append_right_inj] at htokens
    cases more with
    | nil => exact hnot ⟨[], by simp⟩
    | cons t more =>
      obtain ⟨ts, rfl⟩ := htokens
      -- The same token comes next, and blocks the goal whatever comes behind it.
      have hother : Token.NoNewOperator (r.run b).rest
          (List.replicate m .terminator ++ t :: (more ++ others)) := by
        have hhead : Token.NoNewOperator (t :: more ++ ts) (t :: (more ++ others)) :=
          fun _ ht => .inl ht
        rw [hrest]
        exact hhead.append _
      have hstuck := goals_run_ne_nil
        (r := { r.run b with rest := List.replicate m .terminator ++ t :: (more ++ others) })
        hg (hnext t _ rfl _) c
      rw [← hleads.run_eq c hc _ hother] at hstuck
      refine hstuck (Eq.trans ?_ hrun)
      simp only [List.append_assoc, List.cons_append]

end Recognition

end Arbor
