import Arbor.Proofs.Evaluation.Expression
import Arbor.Proofs.Session.Postorder

/-!
# The symbols of the trees that sessions give

A name is taken into the symbol table by the call that brings it, and the table only grows until
the run is over. So in a run that gives a tree, the table holds the names of the calls in the order
of the calls (`Session.exists_calls_of_ok`). A call is told, or pushes the leaf of, the number of
names that were brought before it (`Workspace.Unfailing.answer_intern`,
`Workspace.Unfailing.peek_pushSymbol`).

A node of the tree belongs to a call: the calls that build have made the nodes in post-order, one
each (`Node.madeAt?_pushSymbol`). Whatever else an engine does in between, the symbol that a call
has pushed for a name is found in the tree with this name for its text, and no other call has pushed
the same symbol (`Session.symbols_resolve`).
-/

namespace Arbor

/-! ### Calls and their places -/

namespace Call

variable {c : Call} {calls : List Call} {i j : Nat} {name : String}

/-- The call makes a node. -/
def builds : Call → Bool
  | build _ => true
  | _ => false

/-- The names that calls bring, in order. -/
def names (calls : List Call) : List String := calls.filterMap (·.name?)

theorem names_append (cs ds : List Call) : names (cs ++ ds) = names cs ++ names ds :=
  List.filterMap_append

theorem names_cons (c : Call) (calls : List Call) :
    names (c :: calls) = c.name?.toList ++ names calls := by
  rw [names, List.filterMap_cons]
  cases c.name? <;> rfl

theorem eq_append_of_getElem? (h : calls[i]? = some c) :
    calls = calls.take i ++ c :: calls.drop (i + 1) := by
  obtain ⟨hlt, rfl⟩ := List.getElem?_eq_some_iff.1 h
  rw [← List.drop_eq_getElem_cons hlt, List.take_append_drop]

/-- A name stands behind those that were brought before it. -/
theorem getElem?_names (h : calls[i]? = some c) (hn : c.name? = some name) :
    (names calls)[(names (calls.take i)).length]? = some name := by
  have hsplit := congrArg names (eq_append_of_getElem? h)
  rw [names_append, names_cons, hn] at hsplit
  rw [hsplit, List.getElem?_append_right (Nat.le_refl _), Nat.sub_self]
  rfl

theorem length_names_take_lt_length (h : calls[i]? = some c) (hn : c.name? = some name) :
    (names (calls.take i)).length < (names calls).length :=
  (List.getElem?_eq_some_iff.1 (getElem?_names h hn)).1

/-- A call that brings a name changes the number of those that were brought. -/
theorem length_names_take_lt (h : calls[i]? = some c) (hn : c.name? = some name) (hij : i < j) :
    (names (calls.take i)).length < (names (calls.take j)).length := by
  have hi : (calls.take j)[i]? = some c := by rw [List.getElem?_take_of_lt hij, h]
  have hlt := length_names_take_lt_length hi hn
  rwa [List.take_take, Nat.min_eq_left (Nat.le_of_lt hij)] at hlt

/-- Calls that bring a name, and that as many names come before, are the same call. -/
theorem eq_of_length_names_take {d : Call} {name' : String} (hi : calls[i]? = some c)
    (hn : c.name? = some name) (hj : calls[j]? = some d) (hn' : d.name? = some name')
    (h : (names (calls.take j)).length = (names (calls.take i)).length) : j = i := by
  rcases Nat.lt_trichotomy j i with hji | rfl | hij
  · exact absurd h (Nat.ne_of_lt (length_names_take_lt hj hn' hji))
  · rfl
  · exact absurd h (Nat.ne_of_gt (length_names_take_lt hi hn hij))

end Call

/-- The node of the tree that the call at position `i` has made, if the calls that build have made
    the nodes in post-order. -/
def Node.madeAt? (root : Node) (calls : List Call) (i : Nat) : Option Node :=
  root.postorder[(calls.take i).countP (·.builds)]?

namespace Script

theorem ofCalls_append (next : Nat) (cs ds : List Call) :
    ofCalls next (cs ++ ds) = ofCalls next cs ++ ofCalls (next + (Call.names cs).length) ds := by
  induction cs generalizing next with
  | nil => rfl
  | cons c cs ih =>
    rw [List.cons_append, ofCalls, ih, ofCalls, List.append_assoc, Call.names_cons,
      List.length_append, Nat.add_assoc]

theorem length_ofCalls (next : Nat) (calls : List Call) :
    (ofCalls next calls).length = calls.countP (·.builds) := by
  induction calls generalizing next with
  | nil => rfl
  | cons c calls ih =>
    rw [ofCalls, List.length_append, ih, List.countP_cons, Nat.add_comm]
    cases c <;> rfl

/-- A call that builds stands behind those that build before it. -/
theorem getElem?_ofCalls {calls : List Call} {i : Nat} {op : BuildOp} (next : Nat)
    (h : calls[i]? = some (.build op)) :
    (ofCalls next calls)[(calls.take i).countP (·.builds)]? =
      some (op.resolve (next + (Call.names (calls.take i)).length)) := by
  have hsplit := congrArg (ofCalls next) (Call.eq_append_of_getElem? h)
  rw [ofCalls_append] at hsplit
  rw [hsplit, ← length_ofCalls next, List.getElem?_append_right (Nat.le_refl _), Nat.sub_self]
  rfl

end Script

/-- A node without children is a leaf. -/
theorem Node.eq_leaf_of_label {node : Node} {kind : Kind} {value : Int64}
    (h : node.label = ⟨kind, value, 0⟩) : node = .leaf kind value := by
  cases node with
  | mk kind' value' children =>
    obtain ⟨rfl, rfl, hc⟩ := Label.mk.inj h
    cases List.eq_nil_of_length_eq_zero hc
    rfl

namespace Node

variable {root : Node} {calls : List Call} {i j : Nat} {name name' : String}
  (hroot : root.postorder.map (some ·.label) = (Script.ofCalls 0 calls).map (·.label? 0))
include hroot

/-- The node that a call has made for a name is the symbol of how many names came before it. -/
theorem madeAt?_pushSymbol (hi : calls[i]? = some (.build (.pushSymbol name))) :
    root.madeAt? calls i =
      some (.leaf .symbol (Int64.ofNat (Call.names (calls.take i)).length)) := by
  have hat := congrArg (·[(calls.take i).countP (·.builds)]?) hroot
  simp only [List.getElem?_map, Script.getElem?_ofCalls 0 hi] at hat
  obtain ⟨node, hnode, hlabel⟩ := Option.map_eq_some_iff.1 hat
  rw [madeAt?, hnode, eq_leaf_of_label (Option.some.inj hlabel), Nat.zero_add]

/-- Indices that fit 64 bits are different integers, so no two calls have made the same symbol. -/
theorem madeAt?_inj (hi : calls[i]? = some (.build (.pushSymbol name)))
    (hj : calls[j]? = some (.build (.pushSymbol name')))
    (hsize : (Call.names calls).length ≤ Integer.largest)
    (h : root.madeAt? calls j = root.madeAt? calls i) : j = i := by
  have hlt {k : Nat} {c : Call} {text : String} (hk : calls[k]? = some c)
      (hn : c.name? = some text) : (Call.names (calls.take k)).length < 2 ^ 63 :=
    Nat.lt_of_lt_of_le (Call.length_names_take_lt_length hk hn) (Nat.le_succ_of_le hsize)
  rw [madeAt?_pushSymbol hroot hi, madeAt?_pushSymbol hroot hj] at h
  injection h with hleaf
  injection hleaf with hk hv hc
  have hint := congrArg Int64.toInt hv
  rw [Int64.toInt_ofNat_of_lt (hlt hj rfl), Int64.toInt_ofNat_of_lt (hlt hi rfl)] at hint
  exact Call.eq_of_length_names_take hi rfl hj rfl (Int.ofNat_inj.1 hint)

end Node

/-! ### Calls without a failure -/

namespace Workspace

/-- No call fails: the source is not marked ill-formed, neither before the calls nor by them, and
    none of them is refused. -/
structure Unfailing (w : Workspace) (calls : List Call) : Prop where
  failed_eq : w.failed = false
  notMem : .build .setError ∉ calls
  refusal?_eq : ∀ x ∈ w.exchanges calls, x.refusal? = none

namespace Unfailing

variable {w : Workspace} {c : Call} {calls cs ds : List Call} {i : Nat} {x : Exchange}

theorem tail (h : w.Unfailing (c :: calls)) : (w.reply c).2.Unfailing calls := by
  obtain ⟨hf, hm, hr⟩ := h
  rw [List.mem_cons, not_or] at hm
  rw [exchanges, List.forall_mem_cons] at hr
  exact ⟨((w.step_answer c).resolve hf (Ne.symm hm.1) hr.1).1, hm.2, hr.2⟩

theorem left (h : w.Unfailing (cs ++ ds)) : w.Unfailing cs where
  failed_eq := h.failed_eq
  notMem hm := h.notMem (List.mem_append_left _ hm)
  refusal?_eq x hx := h.refusal?_eq x (by
    rw [exchanges_append]
    exact List.mem_append_left _ hx)

theorem right (h : w.Unfailing (cs ++ ds)) : (w.after cs).Unfailing ds := by
  induction cs generalizing w with
  | nil => exact h
  | cons c cs ih => exact ih h.tail

/-- Every call brings the name that it is to bring. -/
theorem filterMap_name? (h : w.Unfailing calls) :
    (w.exchanges calls).filterMap (·.name?) = Call.names calls := by
  induction calls generalizing w with
  | nil => rfl
  | cons c calls ih =>
    have hname : Exchange.name? ⟨c, (w.reply c).1⟩ = c.name? := by
      have hfailed : (w.reply c).1.failed = false := h.tail.failed_eq
      have hrefusal : (w.reply c).1.answer.refusal? = none :=
        h.refusal?_eq _ List.mem_cons_self
      rw [Exchange.name?, hfailed]
      cases ha : (w.reply c).1.answer with
      | refused v => rw [ha] at hrefusal; cases hrefusal
      | _ => rfl
    rw [exchanges, List.filterMap_cons, hname, ih h.tail, Call.names_cons]
    cases c.name? <;> rfl

theorem size_symbols_after (h : w.Unfailing calls) :
    (w.after calls).symbols.size = w.symbols.size + (Call.names calls).length := by
  have hnames := congrArg List.length (w.entries_after calls)
  rwa [h.filterMap_name?, List.length_append] at hnames

/-- The workspace that a call finds: the names that came before are in its table. -/
theorem before (h : w.Unfailing calls) (hi : calls[i]? = some c) :
    (w.after (calls.take i)).Unfailing (c :: calls.drop (i + 1)) ∧
      (w.after (calls.take i)).symbols.size =
        w.symbols.size + (Call.names (calls.take i)).length := by
  rw [Call.eq_append_of_getElem? hi] at h
  exact ⟨h.right, h.left.size_symbols_after⟩

end Unfailing

variable {w w' : Workspace} {calls : List Call} {name : String} {a : Answer} {i : Nat}
  {x : Exchange}

/-- The exchange at a position is that of the call there, after the calls before it. -/
theorem getElem?_exchanges (h : (w.exchanges calls)[i]? = some x) :
    calls[i]? = some x.call ∧ x.reply = ((w.after (calls.take i)).reply x.call).1 := by
  have hcall : calls[i]? = some x.call := by
    rw [← w.map_call_exchanges calls, List.getElem?_map, h]
    rfl
  have hprefix := List.take_prefix (i + 1) (w.exchanges calls)
  rw [List.take_add_one, h] at hprefix
  refine ⟨hcall, ?_⟩
  rw [reply_of_exchanges hprefix, List.map_take, map_call_exchanges]

/-- A name that is taken in is told how many names were there. -/
theorem Step.answer_intern (h : Step w (.intern name) a w') (hf : w.failed = false)
    (hr : a.refusal? = none) : a = .interned (some w.symbols.size) := by
  cases h with
  | unnamed hf' => rw [hf] at hf'; cases hf'
  | named => rfl
  | full => cases hr

/-- The symbol pushed for a name is how many names were there. -/
theorem Step.peek_pushSymbol (h : Step w (.build (.pushSymbol name)) a w') (hf : w.failed = false)
    (hr : a.refusal? = none) :
    w'.stack.peek = some (.leaf .symbol (Int64.ofNat w.symbols.size)) := by
  cases h with
  | ignored hf' => rw [hf] at hf'; cases hf'
  | built _ _ _ hs =>
    obtain ⟨-, hpush⟩ := BuildStack.pushLeaf_eq_ok_iff.1 hs
    obtain ⟨-, rfl⟩ := BuildStack.push_eq_ok_iff.1 hpush
    rfl
  | crowded => cases hr
  | refused => cases hr

/-- As long as nothing fails, a name is told how many names came before it. -/
theorem Unfailing.answer_intern (h : w.Unfailing calls) (hi : (w.exchanges calls)[i]? = some x)
    (hx : x.call = .intern name) :
    x.reply.answer = .interned (some (w.symbols.size + (Call.names (calls.take i)).length)) := by
  obtain ⟨hcall, hreply⟩ := getElem?_exchanges hi
  obtain ⟨hbefore, hsize⟩ := h.before hcall
  have hr := h.refusal?_eq x (List.mem_of_getElem? hi)
  rw [Exchange.refusal?, hreply, hx] at hr
  rw [hreply, hx, ← hsize]
  exact (step_answer _ (.intern name)).answer_intern hbefore.failed_eq hr

/-- As long as nothing fails, the symbol pushed for a name is how many names came before it. -/
theorem Unfailing.peek_pushSymbol (h : w.Unfailing calls)
    (hi : calls[i]? = some (.build (.pushSymbol name))) :
    (w.after (calls.take (i + 1))).stack.peek =
      some (.leaf .symbol (Int64.ofNat (w.symbols.size + (Call.names (calls.take i)).length))) := by
  obtain ⟨hbefore, hsize⟩ := h.before hi
  have hr := hbefore.refusal?_eq _ List.mem_cons_self
  rw [List.take_add_one, hi, after_append, ← hsize]
  exact (step_answer _ _).peek_pushSymbol hbefore.failed_eq hr

end Workspace

/-! ### Runs that give a tree -/

/-- The table of a tree that a run gives holds the names of the run. -/
theorem Run.symbols_of_judgement_eq_ok {run : Run} {capacity : Option Nat} {tree : ParseTree}
    (h : run.judgement capacity = .ok tree) : tree.symbols = ⟨run.names.toArray, capacity⟩ := by
  unfold judgement at h
  split at h
  · cases h
  · split at h <;> cases h
    rfl

namespace Session

variable {limits : Limits} {uses : List Use} {engine : Engine} {source : ByteArray}
  {tree : ParseTree}

/-- The calls of a run that gives a tree. None of them fails, the table of the tree holds their
    names, and the nodes of the tree in post-order are those that they make. -/
theorem exists_calls_of_ok
    (h : (((new limits).after uses).parse engine source).result = .ok tree) :
    ∃ calls, (((new limits).after uses).parse engine source).exchanges =
        (Workspace.ready limits source).exchanges calls ∧
      (Workspace.ready limits source).Unfailing calls ∧
        tree.symbols.entries.toList = Call.names calls ∧
          tree.root.postorder.map (some ·.label) = (Script.ofCalls 0 calls).map (·.label? 0) := by
  obtain ⟨calls, hx, -⟩ := engine.exists_calls (.ready limits source)
  obtain ⟨hm, stack, hn, -, hfollow⟩ := follow_calls_of_ok h
  rw [(parse_after limits uses engine source).2.2, hx] at hm hfollow ⊢
  rw [Workspace.map_call_exchanges] at hm hfollow
  rw [result_parse_after] at h
  obtain ⟨-, hr, -⟩ := Run.of_judgement_eq_ok h
  rw [hx] at hr
  have hunfailing : (Workspace.ready limits source).Unfailing calls := ⟨rfl, hm, hr⟩
  refine ⟨calls, rfl, hunfailing, ?_, ?_⟩
  · rw [Run.symbols_of_judgement_eq_ok h, Run.names, hx, hunfailing.filterMap_name?]
  · have hrow := Workspace.postorders_follow rfl (Script.isPlain_ofCalls hm 0)
      (hfollow (Workspace.new limits) rfl rfl) 0
    rwa [BuildStack.toList, hn, List.reverse_singleton, Node.postorders_singleton] at hrow

/-- Symbols resolve to the texts that they were made from, in every run that gives a tree.

    The symbol that a call pushes for a name, and so puts on top of the stack, is in the tree, where
    its text is the name, and no other call has pushed a symbol of the same index. An index that a
    call was told for a name is that of the name in the table of the tree. And the table holds the
    names of the calls in the order of the calls, so that their indices count from zero. There must
    not be more names than 64-bit integers can number. -/
theorem symbols_resolve
    (h : (((new limits).after uses).parse engine source).result = .ok tree)
    (hsize : tree.symbols.size ≤ Integer.largest) :
    let exchanges := (((new limits).after uses).parse engine source).exchanges
    let calls := exchanges.map (·.call)
    (∀ i name, calls[i]? = some (.build (.pushSymbol name)) →
        ∃ index, ((Workspace.ready limits source).after (calls.take (i + 1))).stack.peek =
            some (.leaf .symbol index) ∧
          tree.root.madeAt? calls i = some (.leaf .symbol index) ∧
            tree.symbolText (.leaf .symbol index) = .ok name ∧
              ∀ j name', calls[j]? = some (.build (.pushSymbol name')) →
                tree.root.madeAt? calls j = some (.leaf .symbol index) → j = i) ∧
      (∀ (i : Nat) (name : String) (reply : Reply), exchanges[i]? = some ⟨.intern name, reply⟩ →
        ∃ index, reply.answer = .interned (some index) ∧ tree.symbols.lookup index = some name) ∧
        tree.symbols.entries.toList = Call.names calls := by
  obtain ⟨calls, hx, hunfailing, hnames, hroot⟩ := exists_calls_of_ok h
  rw [hx]
  dsimp only
  rw [Workspace.map_call_exchanges]
  have hlookup {i : Nat} {c : Call} {name : String} (hi : calls[i]? = some c)
      (hn : c.name? = some name) :
      tree.symbols.lookup (Call.names (calls.take i)).length = some name := by
    rw [SymbolTable.lookup, ← Array.getElem?_toList, hnames]
    exact Call.getElem?_names hi hn
  have hlength : (Call.names calls).length ≤ Integer.largest := by
    rwa [← hnames, Array.length_toList]
  refine ⟨fun i name hi => ⟨_, ?_, Node.madeAt?_pushSymbol hroot hi, ?_, ?_⟩, ?_, hnames⟩
  · have hpeek := hunfailing.peek_pushSymbol hi
    rwa [show (Workspace.ready limits source).symbols.size = 0 from rfl, Nat.zero_add] at hpeek
  · have hlt := Nat.lt_of_lt_of_le (Call.length_names_take_lt_length hi rfl) hlength
    rw [ParseTree.symbolText_leaf, tree.symbols.lookupValue_ofNat (Nat.le_of_lt hlt),
      hlookup hi rfl]
  · exact fun j name' hj hmade => Node.madeAt?_inj hroot hi hj hlength
      (hmade.trans (Node.madeAt?_pushSymbol hroot hi).symm)
  · intro i name reply hi
    have hcall : calls[i]? = some (.intern name) := (Workspace.getElem?_exchanges hi).1
    exact ⟨_, hunfailing.answer_intern hi rfl,
      (congrArg tree.symbols.lookup (Nat.zero_add _)).trans (hlookup hcall rfl)⟩

/-- A name that is taken in by itself, and a name that is pushed twice, after a run that has left
    a name behind. -/
theorem symbols_resolve_twice :
    let engine : Engine := .call (.intern "y") fun _ =>
      .ofScript [.pushSymbol "x", .pushSymbol "x", .reduce .add 2]
    let uses : List Use := [.parse (.ofScript [.pushSymbol "z", .setError]) .empty]
    let outcome := ((new ⟨some 2, some 3⟩).after uses).parse engine .empty
    let tree : ParseTree :=
      ⟨.branch .add [.leaf .symbol 1, .leaf .symbol 2], #["y", "x", "x"], some 3⟩
    outcome.result = .ok tree ∧ tree.symbols.size ≤ Integer.largest ∧
      tree.root.madeAt? (outcome.exchanges.map (·.call)) 2 = some (.leaf .symbol 2) ∧
        tree.symbolText (.leaf .symbol 2) = .ok "x" ∧ tree.symbols.lookup 0 = some "y" ∧
          tree.symbols.entries.toList = Call.names (outcome.exchanges.map (·.call)) := by
  intro engine uses outcome tree
  have h : outcome.result = .ok tree := rfl
  have hsize : tree.symbols.size ≤ Integer.largest := by decide
  obtain ⟨hpushed, htold, hnames⟩ := symbols_resolve h hsize
  obtain ⟨index, -, hmade, htext, -⟩ := hpushed 2 "x" rfl
  have hnode : tree.root.madeAt? (outcome.exchanges.map (·.call)) 2 = some (.leaf .symbol 2) := rfl
  cases hnode.symm.trans hmade
  obtain ⟨-, ⟨⟩, hy⟩ := htold 0 "y" _ rfl
  exact ⟨h, hsize, hnode, htext, hy, hnames⟩

end Session

end Arbor
