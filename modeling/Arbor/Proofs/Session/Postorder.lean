import Arbor.Proofs.Engine.Script

/-!
# Trees and the calls that build them

The calls that build a tree are its nodes in post-order, one call a node, and
every such list of calls builds its tree:

* the stack is always a row of trees whose nodes, in post-order, are the calls made
  so far (`Workspace.postorders_follow`);
* making the calls of `Node.script` puts the tree on the stack
  (`Workspace.follow_script`);
* a call that pushes a symbol does to the stack what pushing its leaf does, so that
  a run can be replayed from its calls (`Workspace.follow_ofCalls`).

So the trees that sessions give are those of the form `Node.Built`
(`Session.postorder_scripts`).
-/

namespace Arbor

namespace BuildOp

/-- The call with the leaf that it pushes in place of a name, when `next` is the next
    index of a name. -/
def resolve (next : Nat) : BuildOp → BuildOp
  | pushSymbol _ => pushLeaf .symbol (Int64.ofNat next)
  | op => op

theorem isPlain_resolve {op : BuildOp} (hop : op ≠ .setError) (next : Nat) :
    (op.resolve next).IsPlain := by
  cases op with
  | setError => exact absurd rfl hop
  | _ => exact ⟨rfl, nofun⟩

theorem perform_resolve (stack : BuildStack) (next m : Nat) (op : BuildOp) :
    stack.perform m (op.resolve next) = stack.perform next op := by
  cases op <;> rfl

end BuildOp

/-- The call that builds, if it is one, with the leaf that it pushes in place of a name. -/
def Call.resolve? (next : Nat) : Call → Option BuildOp
  | build op => some (op.resolve next)
  | _ => none

/-- The calls that build, with the leaves that were pushed in place of names. `next` is
    the index of the first name. -/
def Script.ofCalls (next : Nat) : List Call → Script
  | [] => []
  | c :: calls => (c.resolve? next).toList ++ ofCalls (next + c.name?.toList.length) calls

theorem Script.isPlain_ofCalls {calls : List Call} (hm : .build .setError ∉ calls) (next : Nat) :
    ∀ op ∈ ofCalls next calls, op.IsPlain := by
  induction calls generalizing next with
  | nil => nofun
  | cons c calls ih =>
    rw [List.mem_cons, not_or] at hm
    intro op hop
    rcases List.mem_append.1 hop with hop | hop
    · cases c with
      | build o =>
        cases List.mem_singleton.1 hop
        exact BuildOp.isPlain_resolve (fun h => hm.1 (congrArg _ h.symm)) next
      | _ => cases hop
    · exact ih hm.2 _ op hop

namespace Node

/-- The call that builds the node over its children. -/
def op (node : Node) : BuildOp :=
  if node.kind.isLeaf then .pushLeaf node.kind node.value else .reduce node.kind node.childCount

/-- The calls that build the tree. -/
def script (node : Node) : Script := node.postorder.map op

end Node

namespace Workspace

variable {w w' : Workspace}

/-! ### From calls to trees -/

/-- The nodes of the stack, in post-order, are the calls that were made. -/
theorem postorders_follow {script : Script} (hf : w.failed = false)
    (hp : ∀ op ∈ script, op.IsPlain) (h : w.follow script = .ok w') (next : Nat) :
    (Node.postorders w'.stack.toList).map (some ·.label) =
      (Node.postorders w.stack.toList).map (some ·.label) ++ script.map (·.label? next) := by
  induction script generalizing w with
  | nil =>
    cases h
    exact (List.append_nil _).symm
  | cons op script ih =>
    obtain ⟨⟨hn, hop⟩, hp⟩ := List.forall_mem_cons.1 hp
    obtain ⟨v, ha, h⟩ := exists_of_follow_cons h
    obtain ⟨-, hs, -⟩ := attempt_eq_ok hf hop ha
    obtain ⟨node, rest, hw, hv, -, hl, -⟩ := BuildStack.exists_of_perform hop hs
    have hl' : op.label? next = some node.label := by
      rw [← hl]
      cases op with
      | pushSymbol name => cases hn
      | _ => rfl
    -- The children of the new node are the last trees of the row before.
    have hrow : Node.postorders v.stack.toList = Node.postorders w.stack.toList ++ [node] := by
      rw [BuildStack.toList, BuildStack.toList, hv, hw, List.reverse_cons, List.reverse_append,
        List.reverse_reverse, Node.postorders_append, Node.postorders_append,
        Node.postorders_singleton, Node.postorder_eq, List.append_assoc]
    rw [ih (failed_of_attempt hf hop ha) hp h, hrow, List.map_append, List.append_assoc,
      @List.map_cons _ _ _ op script, hl']
    rfl

/-- All trees on the stack are of the form that engines build. -/
theorem Step.built_nodes {c : Call} {a : Answer} (h : Step w c a w')
    (hb : ∀ n ∈ w.stack.nodes, n.Built) : ∀ n ∈ w'.stack.nodes, n.Built := by
  cases h with
  | built _ hop _ hs =>
    obtain ⟨node, rest, hw, hv, -, -, hn⟩ := BuildStack.exists_of_perform hop hs
    intro n hmem
    rw [hv] at hmem
    rcases List.mem_cons.1 hmem with rfl | hmem
    · exact hn hb
    · exact hb n (hw ▸ List.mem_append_right _ hmem)
  | _ => exact hb

theorem built_after (hb : ∀ n ∈ w.stack.nodes, n.Built) (calls : List Call) :
    ∀ n ∈ (w.after calls).stack.nodes, n.Built :=
  after_induction (P := fun w => ∀ n ∈ w.stack.nodes, n.Built) hb
    (fun w c => (w.step_answer c).built_nodes) calls

/-! ### From trees to calls -/

/-- The calls that build a row of trees put it on the stack, if those of each tree do. -/
theorem follow_scripts {trees : List Node}
    (h : ∀ tree ∈ trees, ∀ w : Workspace, w.failed = false → w.stack.capacity = none →
      w.follow tree.script = .ok { w with stack := w.stack.cons tree })
    (hf : w.failed = false) (hc : w.stack.capacity = none) :
    ∃ stack, w.follow ((Node.postorders trees).map Node.op) = .ok { w with stack } ∧
      stack.nodes = trees.reverse ++ w.stack.nodes ∧ stack.capacity = none := by
  induction trees generalizing w with
  | nil => exact ⟨w.stack, rfl, rfl, hc⟩
  | cons tree trees ih =>
    obtain ⟨ht, hts⟩ := List.forall_mem_cons.1 h
    have hf' : ({ w with stack := w.stack.cons tree } : Workspace).failed = false := hf
    obtain ⟨stack, hw, hn, hc'⟩ := ih hts hf' hc
    refine ⟨stack, ?_, ?_, hc'⟩
    · rw [Node.postorders, List.map_append, follow_append]
      change w.follow tree.script >>= _ = _
      rw [ht w hf hc]
      exact hw
    · rw [hn, BuildStack.cons, List.reverse_cons, List.append_assoc]
      rfl

/-- The calls that build a tree put it on the stack. -/
theorem follow_script {tree : Node} (ht : tree.Built) (hf : w.failed = false)
    (hc : w.stack.capacity = none) :
    w.follow tree.script = .ok { w with stack := w.stack.cons tree } := by
  induction ht generalizing w with
  | @leaf kind value hk =>
    have hs : w.stack.pushLeaf kind value = .ok (w.stack.cons (.leaf kind value)) :=
      BuildStack.pushLeaf_eq_ok_iff.2 ⟨hk, BuildStack.push_eq_ok_iff.2 ⟨by simp [hc], rfl⟩⟩
    have hscript : (Node.leaf kind value).script = [.pushLeaf kind value] := by
      simp [Node.script, Node.leaf, Node.postorder, Node.postorders, Node.op, Node.kind, Node.value, hk]
    rw [hscript, follow, attempt_plain hf (BuildOp.isPlain_pushLeaf kind value), BuildStack.perform, hs]
    rfl
  | @branch kind children hk _ ih =>
    -- The children are on top when the reduction is made, the last one first.
    obtain ⟨stack, hw, hn, hc'⟩ := follow_scripts (fun tree h w => ih tree h) hf hc
    have hs : stack.reduce kind children.length = .ok (w.stack.cons (.branch kind children)) := by
      refine BuildStack.reduce_eq_ok_iff.2 ⟨by simp [hk], ?_, ?_, hc'.symm ▸ hc⟩
      · simp [stack.size_eq, hn]
      · simp [hn, BuildStack.cons]
    have hscript : (Node.branch kind children).script =
        (Node.postorders children).map Node.op ++ [.reduce kind children.length] := by
      simp [Node.script, Node.branch, Node.postorder, Node.op, Node.kind, Node.childCount,
        Node.children, hk]
    have hf' : ({ w with stack } : Workspace).failed = false := hf
    rw [hscript, follow_append, hw]
    change ({ w with stack } : Workspace).attempt _ >>= _ = _
    rw [attempt_plain hf' (BuildOp.isPlain_reduce kind _), BuildStack.perform, hs]
    rfl

/-! ### From calls to calls -/

/-- A call that neither marks the source ill-formed nor is refused counts its name, and
    does to the stack what the leaf in place of the name does. -/
theorem Step.resolve {c : Call} {a : Answer} (h : Step w c a w') (hf : w.failed = false)
    (hm : c ≠ .build .setError) (hr : a.refusal? = none) :
    w'.failed = false ∧ w'.symbols.size = w.symbols.size + c.name?.toList.length ∧
      ∀ v : Workspace, v.failed = false → v.stack = w.stack →
        v.follow (c.resolve? w.symbols.size).toList = .ok { v with stack := w'.stack } := by
  have hsize {name : Option String} {t : SymbolTable} (ht : w.symbols.takeIn name = .ok t) :
      t.size = w.symbols.size + name.toList.length := by
    rw [(SymbolTable.takeIn_eq_ok_iff.1 ht).2]
    cases name <;> simp [SymbolTable.size]
  have hsame : ∀ v : Workspace, v.failed = false → v.stack = w.stack →
      v.follow [] = .ok { v with stack := w.stack } := by
    intro v _ hs
    rw [← hs]
    rfl
  cases h with
  | ignored hf' => rw [hf] at hf'; cases hf'
  | unnamed hf' => rw [hf] at hf'; cases hf'
  | marked => exact absurd rfl hm
  | @built op _ _ _ hop ht hs =>
    refine ⟨hf, hsize ht, ?_⟩
    intro v hf' hv
    rw [Call.resolve?, Option.toList, follow, attempt_plain hf' (BuildOp.isPlain_resolve hop _),
      BuildOp.perform_resolve, hv, hs]
    rfl
  | crowded => cases hr
  | refused => cases hr
  | named _ ht => exact ⟨hf, hsize ht, hsame⟩
  | full => cases hr
  | read => exact ⟨hf, rfl, hsame⟩
  | readToEnd => exact ⟨hf, rfl, hsame⟩

/-- A run without failures is replayed by its calls, with leaves in place of names. -/
theorem follow_ofCalls {v : Workspace} {calls : List Call} (hf : w.failed = false)
    (hf' : v.failed = false) (hs : v.stack = w.stack) (hm : .build .setError ∉ calls)
    (hr : ∀ x ∈ w.exchanges calls, x.refusal? = none) :
    v.follow (Script.ofCalls w.symbols.size calls) =
      .ok { v with stack := (w.after calls).stack } := by
  induction calls generalizing w v with
  | nil =>
    rw [after, ← hs]
    rfl
  | cons c calls ih =>
    rw [List.mem_cons, not_or] at hm
    rw [exchanges, List.forall_mem_cons] at hr
    obtain ⟨hwf, hsize, hc⟩ := (w.step_answer c).resolve hf (Ne.symm hm.1) hr.1
    have hv : ({ v with stack := (w.answer c).2.stack } : Workspace).failed = false := hf'
    have hrest := ih hwf hv rfl hm.2 hr.2
    rw [hsize] at hrest
    rw [Script.ofCalls, follow_append, hc v hf' hs]
    exact hrest

end Workspace

/-! ### Runs that give a tree -/

/-- A run that gives a tree has made its calls without failure and left this tree. -/
theorem Run.of_judgement_eq_ok {run : Run} {capacity : Option Nat} {tree : ParseTree}
    (h : run.judgement capacity = .ok tree) :
    run.exchanges.any (·.marksFailure) = false ∧ (∀ x ∈ run.exchanges, x.refusal? = none) ∧
      run.workspace.stack.nodes = [tree.root] := by
  unfold judgement at h
  split at h
  · cases h
  · next hm =>
    rw [Bool.not_eq_true] at hm
    split at h
    · cases h
    · cases h
    · next root hr _ hn =>
      cases h
      exact ⟨hm, List.findSome?_eq_none_iff.1 hr, hn⟩
    · cases h

/-- Some exchange of the calls marks the source ill-formed if some call does. -/
theorem Workspace.any_marksFailure (w : Workspace) (calls : List Call) :
    (w.exchanges calls).any (·.marksFailure) = calls.any (· = .build .setError) := by
  conv => rhs; rw [← w.map_call_exchanges calls, List.any_map]
  rfl

namespace Session

variable {limits : Limits} {uses : List Use} {engine : Engine} {source : ByteArray}
  {tree : ParseTree}

/-- The calls of a run that gives a tree: they make the same stack again from its leaves,
    and that stack holds the tree. -/
theorem follow_calls_of_ok
    (h : (((new limits).after uses).parse engine source).result = .ok tree) :
    let calls := (((new limits).after uses).parse engine source).exchanges.map (·.call)
    .build .setError ∉ calls ∧
      ∃ stack : BuildStack, stack.nodes = [tree.root] ∧ tree.root.Built ∧
        ∀ v : Workspace, v.failed = false → v.stack = .ofCapacity limits.maxStackDepth →
          v.follow (Script.ofCalls 0 calls) = .ok { v with stack } := by
  obtain ⟨calls, hx, hw⟩ := engine.exists_calls (.ready limits source)
  rw [(parse_after limits uses engine source).2.2, hx, Workspace.map_call_exchanges]
  rw [result_parse_after] at h
  obtain ⟨hm, hr, hn⟩ := Run.of_judgement_eq_ok h
  rw [hx, Workspace.any_marksFailure] at hm
  rw [hx] at hr
  rw [hw] at hn
  -- No call gave up, for that would be the judgement.
  have hm' : .build .setError ∉ calls := by
    intro hc
    rw [List.any_eq_false] at hm
    exact hm _ hc (decide_eq_true rfl)
  have hb : ∀ n ∈ (Workspace.ready limits source).stack.nodes, n.Built := nofun
  have hroot : tree.root ∈ ((Workspace.ready limits source).after calls).stack.nodes :=
    hn ▸ List.mem_singleton_self _
  exact ⟨hm', _, hn, Workspace.built_after hb calls _ hroot,
    fun v hf hs => Workspace.follow_ofCalls rfl hf hs hm' hr⟩

/-- Trees and their calls in post-order determine each other.

    The calls of a run that gives a tree are the nodes of the tree in post-order, one
    call a node, and replaying them gives the tree again. The calls of any tree of the
    form `Node.Built` give that tree. So these are the trees that sessions give. -/
theorem postorder_scripts :
    (∀ limits uses engine source tree,
      (((new limits).after uses).parse engine source).result = .ok tree →
        let script := Script.ofCalls 0
          ((((new limits).after uses).parse engine source).exchanges.map (·.call))
        (∀ next, script.map (·.label? next) = tree.root.postorder.map (some ·.label)) ∧
          ∀ source', ((new limits).parse (.replay script) source').result =
            .ok ⟨tree.root, #[], limits.maxSymbols⟩) ∧
      (∀ root : Node, root.Built → ∀ uses source,
        (((new .unbounded).after uses).parse (.replay root.script) source).result = .ok ⟨root, {}⟩) ∧
      ∀ root : Node, (∃ limits uses engine source tree,
        (((new limits).after uses).parse engine source).result = .ok tree ∧ tree.root = root) ↔
          root.Built := by
  have scripts : ∀ root : Node, root.Built → ∀ uses source,
      (((new .unbounded).after uses).parse (.replay root.script) source).result = .ok ⟨root, {}⟩ := by
    intro root hb uses source
    obtain ⟨input, hi⟩ := parse_replay .unbounded uses root.script source
    rw [hi, Workspace.follow_script hb rfl rfl]
    rfl
  -- The calls of a run make its stack again, and the nodes of this stack are the calls.
  refine ⟨?_, scripts, ?_⟩
  · intro limits uses engine source tree h script
    obtain ⟨hm, stack, hn, -, hf⟩ := follow_calls_of_ok h
    constructor
    · intro next
      have hp := Workspace.postorders_follow rfl (Script.isPlain_ofCalls hm 0)
        (hf (Workspace.new limits) rfl rfl) next
      rw [BuildStack.toList, hn, List.reverse_singleton, Node.postorders_singleton] at hp
      exact hp.symm
    · intro source'
      obtain ⟨input, hi⟩ := parse_replay limits [] script source'
      refine hi.trans ?_
      rw [hf _ rfl rfl]
      exact Workspace.conclude_eq_ok rfl rfl hn
  · intro root
    constructor
    · rintro ⟨limits, uses, engine, source, tree, h, rfl⟩
      obtain ⟨-, -, -, hb, -⟩ := follow_calls_of_ok h
      exact hb
    · intro hb
      exact ⟨.unbounded, [], .replay root.script, .empty, ⟨root, {}⟩, scripts root hb [] .empty, rfl⟩

/-- The sum of a number and a name, under the tightest bounds: its calls and its tree. -/
theorem postorder_scripts_sum :
    let limits : Limits := ⟨some 2, some 1⟩
    let engine := Engine.ofScript [.pushNumber 2, .pushSymbol "x", .reduce .add 2]
    let script : Script := [.pushNumber 2, .pushLeaf .symbol 0, .reduce .add 2]
    let root := Node.branch .add [.leaf .number 2, .leaf .symbol 0]
    (((new limits).after [.reset]).parse engine .empty).result = .ok ⟨root, #["x"], some 1⟩ ∧
      script.map (·.label? 0) = root.postorder.map (some ·.label) ∧
        ((new limits).parse (.replay script) .empty).result = .ok ⟨root, #[], some 1⟩ ∧
          root.Built := by
  intro limits engine script root
  have h : (((new limits).after [.reset]).parse engine .empty).result =
      .ok ⟨root, #["x"], some 1⟩ := by rfl
  have hs : Script.ofCalls 0
      ((((new limits).after [.reset]).parse engine .empty).exchanges.map (·.call)) = script := by rfl
  obtain ⟨hl, hr⟩ := postorder_scripts.1 limits [.reset] engine .empty _ h
  rw [hs] at hl hr
  refine ⟨h, hl 0, hr .empty, ?_⟩
  exact (postorder_scripts.2.2 root).1 ⟨limits, [.reset], engine, .empty, _, h, rfl⟩

end Session

end Arbor
