import Arbor.Proofs.Interpreter.Statement

/-!
# What a statement reads and binds

All that a statement leaves behind in an interpreter is names (`Interpreter.rested_interpret`). Of
these it binds none but the one that it assigns to (`Interpreter.exists_target`), and it reads none
but those that stand in it (`Interpreter.interpret_congr`). So two statements of which neither
assigns to a name in the other may change places (`Interpreter.interpret_comm`).
-/

namespace Arbor

/-! ### Bindings -/

namespace Namespace

variable {m : Namespace} {target target' : Option String} {value value' : Option Value}

/-- The namespace after a statement, whose value goes to the name that it assigns to. -/
def record (m : Namespace) (target : Option String) (value : Option Value) : Namespace :=
  match target, value with
  | some name, some value => m.set name value
  | _, _ => m

theorem record_none (m : Namespace) (target : Option String) : m.record target none = m := by
  cases target <;> rfl

/-- Names that are not assigned to keep their values. -/
theorem get?_record {name : String} (h : name ∉ target) :
    (m.record target value).get? name = m.get? name := by
  rcases target with _ | key
  · rfl
  · rcases value with _ | value
    · rfl
    · have hne : name ≠ key := fun he => h (congrArg some he.symm)
      exact (m.get?_set key value name).trans (if_neg hne)

/-- Bindings of two names may change places. -/
theorem set_comm {key key' : String} (h : key ≠ key') (v v' : Value) :
    (m.set key v).set key' v' = (m.set key' v').set key v := by
  refine ext_get? fun name => ?_
  rw [get?_set, get?_set, get?_set, get?_set]
  by_cases hn : name = key
  · rw [if_pos hn, if_pos hn, if_neg (hn ▸ h)]
  · rw [if_neg hn, if_neg hn]

theorem record_comm (h : ∀ name ∈ target, name ∉ target') :
    (m.record target value).record target' value' = (m.record target' value').record target value := by
  rcases target with _ | key
  · rfl
  · rcases target' with _ | key'
    · rfl
    · have hne : key ≠ key' := fun he => h key rfl (congrArg some he.symm)
      rcases value with _ | v <;> rcases value' with _ | v'
      · rfl
      · rfl
      · rfl
      · exact set_comm hne v v'

end Namespace

namespace Program

variable {p : Program} {b : Bounds} {source : ByteArray} {capacity : Option Nat} {m n : Namespace}

/-- The name that a program assigns to. -/
def target? (p : Program) : Option String :=
  match p.statement with
  | .expression _ => none
  | .assign name _ => some name

/-- A program has the same value where its names have the same values. -/
theorem evaluate_congr (h : ∀ t ∈ p.tokens, t.IsWord) (hm : Namespace.AgreeOn p.names m n) :
    ((p.tree capacity).evaluate m).1 = ((p.tree capacity).evaluate n).1 := by
  have hwords := isWord_of_mem_statement h
  rcases hs : p.statement with e | ⟨name, e⟩ <;> rw [hs, Statement.tokens] at hwords
  · rw [ParseTree.evaluate, ParseTree.evaluate, tree, node, hs]
    exact (e.isExpression_node 0 hwords).eval_congr hm
  · rw [List.forall_mem_cons, List.forall_mem_cons] at hwords
    have hsource : ((p.tree capacity).eval (e.node 1) m).1 = ((p.tree capacity).eval (e.node 1) n).1 :=
      (e.isExpression_node 1 hwords.2.2).eval_congr hm
    rw [evaluate_assign hs h, evaluate_assign hs h, hsource]
    rcases ((p.tree capacity).eval (e.node 1) n).1 with e' | value <;> rfl

/-- A program binds the name that it assigns to, if it has a value. -/
theorem names_evaluate (h : ∀ t ∈ p.tokens, t.IsWord) :
    ((p.tree capacity).evaluate m).2 =
      m.record p.target? ((p.tree capacity).evaluate m).1.toOption := by
  rcases hs : p.statement with e | ⟨name, e⟩ <;> rw [target?, hs]
  · exact names_evaluate_expression hs h
  · rw [evaluate_assign hs h]
    rcases ((p.tree capacity).eval (e.node 1) m).1 with e' | value <;> rfl

end Program

/-! ### Statements -/

namespace Interpreter

/-- The interpreter with its session reset. -/
def rested (i : Interpreter) : Interpreter := { i with session := i.session.reset }

section

variable (i : Interpreter) (source : String)

/-- An interpreter answers as it does once its session is reset. -/
theorem interpret_rested : i.rested.interpret source = i.interpret source := rfl

theorem bounds_interpret : (i.interpret source).2.bounds = i.bounds := by
  unfold interpret
  dsimp only
  split <;> rfl

/-- A statement leaves nothing behind but names. -/
theorem rested_interpret :
    (i.interpret source).2.rested = { i with names := (i.interpret source).2.names }.rested := by
  have hsession : (i.interpret source).2.session =
      (i.session.parse (.ofGrammar i.bounds) source.toUTF8).session := by
    unfold interpret
    dsimp only
    split <;> rfl
  rw [rested, rested, bounds_interpret, hsession, Session.reset_parse]

/-- After a statement, the next one is answered with the names as they are then. -/
theorem interpret_interpret (next : String) :
    (i.interpret source).2.interpret next =
      { i with names := (i.interpret source).2.names }.interpret next := by
  rw [← interpret_rested, rested_interpret, interpret_rested]

/-- A statement has the same answer where the names that stand in it have the same values. -/
theorem interpret_congr {n : Namespace}
    (h : Namespace.AgreeOn (namesIn source.toUTF8) i.names n) :
    ({ i with names := n }.interpret source).1 = (i.interpret source).1 := by
  rcases i.parse_cases source with ⟨e, hparse⟩ | ⟨p, hp, capacity, hparse⟩
  · rw [(i.interpret_of_error source hparse).1]
    exact ({ i with names := n }.interpret_of_error source hparse).1
  · rw [hp.namesIn_eq] at h
    rw [(i.interpret_of_ok source hparse).1, Program.evaluate_congr hp.isWord h]
    exact ({ i with names := n }.interpret_of_ok source hparse).1

end

/-- The source is the text of an assignment to the name. -/
def Assigns (b : Bounds) (source : ByteArray) (name : String) : Prop :=
  ∃ p : Program, p.IsReadFrom b source ∧ name ∈ p.target?

/-- What a source assigns to is what its program does. -/
theorem assigns_iff {p : Program} {b : Bounds} {source : ByteArray} {name : String}
    (hp : p.IsReadFrom b source) : Assigns b source name ↔ name ∈ p.target? :=
  ⟨fun ⟨_, hq, hname⟩ => hq.unique hp ▸ hname, fun hname => ⟨p, hp, hname⟩⟩

/-- A name that is assigned to stands in the source. -/
theorem Assigns.mem_namesIn {b : Bounds} {source : ByteArray} {name : String}
    (h : Assigns b source name) : name ∈ namesIn source := by
  obtain ⟨p, hp, hname⟩ := h
  rw [hp.namesIn_eq, p.names_eq]
  rcases hs : p.statement with e | ⟨key, e⟩ <;> rw [Program.target?, hs] at hname
  · cases hname
  · cases hname
    exact List.mem_cons_self

/-- There is one name at most that a statement binds, whatever the interpreter. It is the one that
    the statement assigns to, and is bound if the statement has a value. -/
theorem exists_target (b : Bounds) (source : String) :
    ∃ target : Option String, (∀ name ∈ target, Assigns b source.toUTF8 name) ∧
      ∀ i : Interpreter, i.bounds = b →
        (i.interpret source).2.names = i.names.record target (i.interpret source).1.toOption := by
  have keeps {i : Interpreter} {e : ParseError} (target : Option String)
      (h : (i.session.parse (.ofGrammar i.bounds) source.toUTF8).result = .error e) :
      (i.interpret source).2.names = i.names.record target (i.interpret source).1.toOption := by
    obtain ⟨hanswer, hnames⟩ := i.interpret_of_error source h
    rw [hanswer, hnames]
    exact (Namespace.record_none _ _).symm
  by_cases hp : ∃ p : Program, p.IsReadFrom b source.toUTF8
  · obtain ⟨p, hp⟩ := hp
    refine ⟨p.target?, fun name hname => ⟨p, hp, hname⟩, ?_⟩
    rintro i rfl
    rcases i.parse_cases source with ⟨e, hparse⟩ | ⟨q, hq, capacity, hparse⟩
    · exact keeps _ hparse
    · obtain rfl : q = p := hq.unique hp
      obtain ⟨hanswer, hnames⟩ := i.interpret_of_ok source hparse
      rw [hanswer, hnames, Program.names_evaluate hq.isWord]
      rcases ((q.tree capacity).evaluate i.names).1 with e | value <;> rfl
  · refine ⟨none, nofun, ?_⟩
    rintro i rfl
    rcases i.parse_cases source with ⟨e, hparse⟩ | ⟨q, hq, -⟩
    · exact keeps _ hparse
    · exact absurd ⟨q, hq⟩ hp

/-- A statement without a value binds nothing. -/
theorem names_of_error {i : Interpreter} {source : String} {e : StatementError}
    (h : (i.interpret source).1 = .error e) : (i.interpret source).2.names = i.names := by
  obtain ⟨target, -, hnames⟩ := exists_target i.bounds source
  rw [hnames i rfl, h]
  exact Namespace.record_none _ _

/-- Independent statements commute. If neither of two statements assigns to a name that stands in
    the other, then each of them has the same answer in both orders, be it a value or an error,
    and the same names are bound afterwards. -/
theorem interpret_comm (i : Interpreter) {first second : String}
    (hfirst : ∀ name, Assigns i.bounds first.toUTF8 name → name ∉ namesIn second.toUTF8)
    (hsecond : ∀ name, Assigns i.bounds second.toUTF8 name → name ∉ namesIn first.toUTF8) :
    let afterFirst := (i.interpret first).2
    let afterSecond := (i.interpret second).2
    (afterSecond.interpret first).1 = (i.interpret first).1 ∧
      (afterFirst.interpret second).1 = (i.interpret second).1 ∧
        (afterSecond.interpret first).2.names = (afterFirst.interpret second).2.names := by
  intro afterFirst afterSecond
  obtain ⟨target, hassigns, hnames⟩ := exists_target i.bounds first
  obtain ⟨target', hassigns', hnames'⟩ := exists_target i.bounds second
  have hafter : afterFirst.names = i.names.record target (i.interpret first).1.toOption :=
    hnames i rfl
  have hafter' : afterSecond.names = i.names.record target' (i.interpret second).1.toOption :=
    hnames' i rfl
  -- Neither statement reads what the other binds.
  have hanswer : (afterSecond.interpret first).1 = (i.interpret first).1 := by
    rw [interpret_interpret, hafter']
    refine i.interpret_congr first fun name hname => ?_
    exact (Namespace.get?_record fun h => hsecond name (hassigns' name h) hname).symm
  have hanswer' : (afterFirst.interpret second).1 = (i.interpret second).1 := by
    rw [interpret_interpret, hafter]
    refine i.interpret_congr second fun name hname => ?_
    exact (Namespace.get?_record fun h => hfirst name (hassigns name h) hname).symm
  refine ⟨hanswer, hanswer', ?_⟩
  rw [hnames afterSecond (i.bounds_interpret second), hnames' afterFirst (i.bounds_interpret first),
    hanswer, hanswer', hafter, hafter']
  exact Namespace.record_comm fun name h h' =>
    hsecond name (hassigns' name h) (hassigns name h').mem_namesIn

/-- Both statements read `x`, and the second has no value. -/
theorem interpret_comm_division :
    let i : Interpreter := { names := ({} : Namespace).set "x" (.int 2) }
    let afterFirst := (i.interpret "y = x").2
    let afterSecond := (i.interpret "z = x / 0").2
    (∀ name, Assigns i.bounds "y = x".toUTF8 name → name ∉ namesIn "z = x / 0".toUTF8) ∧
      (∀ name, Assigns i.bounds "z = x / 0".toUTF8 name → name ∉ namesIn "y = x".toUTF8) ∧
        (afterSecond.interpret "y = x").1 = (i.interpret "y = x").1 ∧
          (afterFirst.interpret "z = x / 0").1 = (i.interpret "z = x / 0").1 ∧
            (afterSecond.interpret "y = x").2.names = (afterFirst.interpret "z = x / 0").2.names := by
  intro i
  let assignment (key : String) (more : Tail .product) : Program :=
    ⟨0, .assign key (.chain (.chain (.chain (.atom (.name "x")) more) .nil) .nil), 0⟩
  let p := assignment "y" .nil
  let q := assignment "z" (.cons .slash (.atom (.number 0)) .nil)
  have hfits : p.node.Fits 512 :=
    p.statement.fits_node_iff.2
      (by simp [p, assignment, Statement.Within, Phrase.Within, Tail.Within, Phrase.height, Tail.height])
  have hfits' : q.node.Fits 512 :=
    q.statement.fits_node_iff.2
      (by simp [q, assignment, Statement.Within, Phrase.Within, Tail.Within, Phrase.height, Tail.height])
  have hp : p.IsReadFrom {} "y = x".toUTF8 := ⟨⟨_, rfl, by decide +kernel⟩, by decide, hfits⟩
  have hq : q.IsReadFrom {} "z = x / 0".toUTF8 := ⟨⟨_, rfl, by decide +kernel⟩, by decide, hfits'⟩
  have hfirst : ∀ name, Assigns i.bounds "y = x".toUTF8 name → name ∉ namesIn "z = x / 0".toUTF8 := by
    intro name h
    cases (assigns_iff hp).1 h
    rw [hq.namesIn_eq]
    decide
  have hsecond : ∀ name, Assigns i.bounds "z = x / 0".toUTF8 name → name ∉ namesIn "y = x".toUTF8 := by
    intro name h
    cases (assigns_iff hq).1 h
    rw [hp.namesIn_eq]
    decide
  exact ⟨hfirst, hsecond, i.interpret_comm hfirst hsecond⟩

end Interpreter

end Arbor
