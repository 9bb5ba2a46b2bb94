import Arbor.Proofs.Session.Limits

/-!
# Sources in a session with the default limits

By default there is room on the stack for whatever the default nesting allows. So the one
violation that a source can run into is that of the symbol table, and it does so if its calls
bring more than 1024 names (`Session.result_default_eq_contract_iff`). The bounds of the grammar
do not keep them from it: the sums of products `Program.crowd` have as many names as one likes,
without any parentheses and in trees a third as tall.
-/

namespace Arbor

/-! ### A program with many names -/

/-- Multiplies by a name, so many times. -/
def Tail.powers : Nat → Tail .product
  | 0 => .nil
  | n + 1 => .cons .star (.atom (.name "a")) (powers n)

namespace Tail

theorem nesting_powers (n : Nat) : (powers n).nesting = 0 := by
  induction n with
  | zero => rfl
  | succ n ih => exact (Nat.zero_max _).trans ih

theorem height_powers {left : Nat} (n : Nat) (h : 1 ≤ left) : (powers n).height left = left + n := by
  induction n generalizing left with
  | zero => rfl
  | succ n ih =>
    change (powers n).height (1 + max left 1) = left + (n + 1)
    rw [Nat.max_eq_left h, ih (Nat.le_add_right 1 left)]
    omega

theorem within_powers {bound left n : Nat} (h : 1 ≤ left) (hb : left + n ≤ bound) :
    (powers n).Within bound left := by
  induction n generalizing left with
  | zero => trivial
  | succ n ih =>
    have hpair : 1 + max left 1 + n ≤ bound := by omega
    exact ⟨trivial, Nat.le_trans (Nat.le_add_right _ n) hpair, ih (Nat.le_add_right 1 _) hpair⟩

theorem length_names_powers (n : Nat) : (Token.names (powers n).tokens).length = n := by
  induction n with
  | zero => rfl
  | succ n ih => exact congrArg Nat.succ ih

theorem isSpelled_of_mem_powers {n : Nat} : ∀ t ∈ (powers n).tokens, t.isSpelled := by
  induction n with
  | zero => exact nofun
  | succ n ih =>
    have hstar : Token.star.isSpelled := by decide +kernel
    have hname : (Token.ident "a").isSpelled := by decide +kernel
    exact List.forall_mem_cons.2 ⟨hstar, List.forall_mem_cons.2 ⟨hname, ih⟩⟩

end Tail

/-- The product of `n` names and one more. -/
def Phrase.power (n : Nat) : Phrase (some .product) := .chain (.atom (.name "a")) (.powers n)

/-- The sum of three products of `n` names and one more. -/
def Program.crowd (n : Nat) : Program :=
  ⟨0, .expression (.chain (.chain (.power n)
    (.cons .plus (.power n) (.cons .plus (.power n) .nil))) .nil), 0⟩

namespace Program

variable (n : Nat)

theorem tokens_crowd :
    (crowd n).tokens = (Phrase.power n).tokens ++ .plus :: ((Phrase.power n).tokens ++
      .plus :: (Phrase.power n).tokens) := by
  let ts := (Phrase.power n).tokens
  change ((ts ++ .plus :: (ts ++ .plus :: (ts ++ []))) ++ []) ++ [] = _
  simp only [List.append_nil]
  rfl

theorem length_names_crowd : (crowd n).names.length = 3 * (n + 1) := by
  have hpower : (Token.names (Phrase.power n).tokens).length = n + 1 :=
    congrArg Nat.succ (Tail.length_names_powers n)
  rw [names, tokens_crowd, Token.names_append, Token.names_cons rfl, Token.names_append,
    Token.names_cons rfl, List.length_append, List.length_append, hpower]
  omega

theorem nesting_crowd : (crowd n).nesting = 0 := by
  have hpower : (Phrase.power n).nesting = 0 := (Nat.zero_max _).trans (Tail.nesting_powers n)
  change max (max (Phrase.power n).nesting (max (Phrase.power n).nesting
    (max (Phrase.power n).nesting 0))) 0 = 0
  rw [hpower]
  rfl

/-- The tree of the sum is three nodes taller than the product of `n` names. -/
theorem fits_crowd {bound : Nat} (h : n + 3 ≤ bound) : (crowd n).node.Fits bound := by
  have hheight : (Phrase.power n).height = n + 1 := by
    rw [Nat.add_comm n 1]
    exact Tail.height_powers n (Nat.le_refl 1)
  have hw : (Tail.powers n).Within bound 1 := Tail.within_powers (Nat.le_refl 1) (by omega)
  have hpower : (Phrase.power n).Within bound := ⟨trivial, hw⟩
  have hfirst : 1 + max (n + 1) (n + 1) ≤ bound := by omega
  have hsecond : 1 + max (1 + max (n + 1) (n + 1)) (n + 1) ≤ bound := by omega
  rw [← hheight] at hfirst hsecond
  exact (crowd n).statement.fits_node_iff.2
    ⟨⟨hpower, hpower, hfirst, hpower, hsecond, trivial⟩, trivial⟩

/-- The program can be written down, and read within all bounds that leave room for its tree. -/
theorem isReadFrom_crowd {b : Bounds} (h : n + 3 ≤ b.maxDepth) :
    (crowd n).IsReadFrom b (Token.line (crowd n).tokens).toUTF8 := by
  have hname : (Token.ident "a").isSpelled := by decide +kernel
  have hplus : Token.plus.isSpelled := by decide +kernel
  have hpower : ∀ t ∈ (Phrase.power n).tokens, t.isSpelled :=
    List.forall_mem_cons.2 ⟨hname, Tail.isSpelled_of_mem_powers⟩
  have hspelled : ∀ t ∈ (crowd n).tokens, t.isSpelled := by
    rw [tokens_crowd]
    exact List.forall_mem_append.2 ⟨hpower, List.forall_mem_cons.2 ⟨hplus,
      List.forall_mem_append.2 ⟨hpower, List.forall_mem_cons.2 ⟨hplus, hpower⟩⟩⟩⟩
  exact ⟨⟨_, rfl, Token.scan_line hspelled⟩, nesting_crowd n ▸ Nat.zero_le _, fits_crowd n h⟩

end Program

/-! ### Violations under the default limits -/

namespace Session

/-- In a session with the default limits, a source is a violation if and only if its calls bring
    more than 1024 names where there are no limits, and then the violation is that of the symbol
    table. -/
theorem result_default_eq_contract_iff (uses uses' : List Use) (source : ByteArray)
    (v : Violation) :
    let free := ((new .unbounded).after uses').parse (.ofGrammar {}) source
    (((new {}).after uses).parse (.ofGrammar {}) source).result = .error (.contract v) ↔
      v = .symbolCapacityExceeded 1024 ∧
        1024 < (free.exchanges.filterMap (·.call.name?)).length := by
  intro free
  have hnames : free.exchanges.filterMap (·.call.name?) =
      (Script.ofSource {} source).filterMap (·.name?) := by
    have hcalls := congrArg (List.filterMap Call.name?) (calls_parse_unbounded uses' {} source)
    rw [List.filterMap_map, List.filterMap_cons_none rfl, List.filterMap_map] at hcalls
    exact hcalls
  rw [result_eq_contract_iff_of_room {} uses {} source Limits.room_default, Script.nameCounts_demands,
    hnames]
  constructor
  · rintro ⟨capacity, hc, hlt, hv⟩
    cases hc
    exact ⟨hv, hlt⟩
  · rintro ⟨hv, hlt⟩
    exact ⟨1024, rfl, hlt, hv⟩

/-- The sum of three products of 342 names has no parentheses, and its tree is 344 nodes tall; but
    its names are 1026, and the default table is full before the last two. -/
theorem result_default_crowd :
    ((new {}).parse (.ofGrammar {}) (Token.line (Program.crowd 341).tokens).toUTF8).result =
      .error (.contract (.symbolCapacityExceeded 1024)) := by
  have hp : (Program.crowd 341).IsReadFrom {} _ := Program.isReadFrom_crowd 341 (by decide)
  refine (result_eq_contract_iff_of_room {} [] {} _ Limits.room_default _).2 ⟨1024, rfl, ?_, rfl⟩
  rw [(Script.moves_ofSource hp).2, hp.nameCounts_demands, Program.length_names_crowd]
  decide

end Session

end Arbor
