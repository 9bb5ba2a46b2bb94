import Arbor.Session

/-!
# What building demands

A call that builds makes one node, and the node makes a *demand* on the workspace: a
leaf wants a place on the stack, and before that a place in the symbol table if it is
the leaf of a name. A branch wants nothing, it takes the places of its children. What
building comes to under limits can be told from the demands, without the trees:

* `Demand.peak` is the largest number of trees that are on the stack at a time;
* `Limits.firstExceeded?` is the violation of the first demand that exceeds a limit.
  There is none if and only if the peak and the number of names are within the limits
  (`Limits.firstExceeded?_eq_none_iff`).
-/

namespace Arbor

/-- What making a node wants of the workspace. -/
inductive Demand
  /-- A place on the stack; for the leaf of a name, one in the symbol table as well. -/
  | leaf (named : Bool)
  /-- The places of so many trees, for one. -/
  | branch (arity : Nat)
  deriving DecidableEq

/-- How much of a workspace is taken. -/
structure Extent where
  trees : Nat := 0
  names : Nat := 0

namespace Demand

/-- How many trees are on the stack once the demand is met. -/
def treesAfter (trees : Nat) : Demand → Nat
  | leaf _ => trees + 1
  | branch arity => trees + 1 - arity

/-- How many names a demand brings. -/
def nameCount : Demand → Nat
  | leaf named => if named then 1 else 0
  | branch _ => 0

/-- How many names the demands bring. -/
def nameCounts : List Demand → Nat
  | [] => 0
  | d :: ds => d.nameCount + nameCounts ds

/-- How many trees are on the stack once all demands are met. -/
def treesAfterAll (trees : Nat) (ds : List Demand) : Nat := ds.foldl treesAfter trees

/-- The largest number of trees on the stack while the demands are met, one after the
    other, from `trees` trees on. -/
def peak (trees : Nat) : List Demand → Nat
  | [] => trees
  | d :: ds => max trees (peak (d.treesAfter trees) ds)

theorem le_peak (trees : Nat) (ds : List Demand) : trees ≤ peak trees ds := by
  cases ds with
  | nil => exact Nat.le_refl _
  | cons d ds => exact Nat.le_max_left _ _

theorem peak_append (trees : Nat) (ds es : List Demand) :
    peak trees (ds ++ es) = max (peak trees ds) (peak (treesAfterAll trees ds) es) := by
  induction ds generalizing trees with
  | nil => exact (Nat.max_eq_right (le_peak trees es)).symm
  | cons d ds ih =>
    rw [List.cons_append, peak, ih, peak, Nat.max_assoc]
    rfl

/-- Leaves alone pile up. -/
theorem peak_of_forall_leaf {trees : Nat} {ds : List Demand} (h : ∀ d ∈ ds, ∃ named, d = leaf named) :
    peak trees ds = trees + ds.length := by
  induction ds generalizing trees with
  | nil => rfl
  | cons d ds ih =>
    obtain ⟨⟨named, rfl⟩, hds⟩ := List.forall_mem_cons.1 h
    rw [peak, treesAfter, ih hds, List.length_cons]
    omega

theorem treesAfterAll_append (trees : Nat) (ds es : List Demand) :
    treesAfterAll trees (ds ++ es) = treesAfterAll (treesAfterAll trees ds) es :=
  List.foldl_append

theorem treesAfterAll_le_peak (trees : Nat) (ds : List Demand) :
    treesAfterAll trees ds ≤ peak trees ds := by
  induction ds generalizing trees with
  | nil => exact Nat.le_refl _
  | cons d ds ih => exact Nat.le_trans (ih (d.treesAfter trees)) (Nat.le_max_right _ _)

end Demand

namespace Extent

/-- The extent once a demand is met. -/
def add (e : Extent) (d : Demand) : Extent := ⟨d.treesAfter e.trees, e.names + d.nameCount⟩

/-- The extent once all demands are met. -/
def addAll (e : Extent) (ds : List Demand) : Extent :=
  ⟨Demand.treesAfterAll e.trees ds, e.names + Demand.nameCounts ds⟩

theorem addAll_cons (e : Extent) (d : Demand) (ds : List Demand) :
    e.addAll (d :: ds) = (e.add d).addAll ds := by
  rw [addAll, addAll, Demand.nameCounts, ← Nat.add_assoc]
  rfl

end Extent

/-! ### Limits -/

namespace Limits

variable {limits : Limits} {e : Extent} {d : Demand} {ds : List Demand}

/-- So many trees at a time and so many names are within the limits. -/
def Allow (limits : Limits) (trees names : Nat) : Prop :=
  (∀ capacity ∈ limits.maxStackDepth, trees ≤ capacity) ∧
    ∀ capacity ∈ limits.maxSymbols, names ≤ capacity

/-- No limit is exceeded to begin with. -/
theorem allow_zero (limits : Limits) : limits.Allow 0 0 :=
  ⟨fun _ _ => Nat.zero_le _, fun _ _ => Nat.zero_le _⟩

/-- The violation of a demand that exceeds a limit. The table is asked before the stack. -/
def exceeded? (limits : Limits) (e : Extent) : Demand → Option Violation
  | .leaf named =>
    ((if named then limits.maxSymbols.filter (· ≤ e.names) else none).map
      .symbolCapacityExceeded).or ((limits.maxStackDepth.filter (· ≤ e.trees)).map .stackOverflow)
  | .branch _ => none

/-- The violation of the first demand that exceeds a limit. -/
def firstExceeded? (limits : Limits) (e : Extent) : List Demand → Option Violation
  | [] => none
  | d :: ds => (limits.exceeded? e d).or (limits.firstExceeded? (e.add d) ds)

theorem firstExceeded?_append (ds es : List Demand) :
    limits.firstExceeded? e (ds ++ es) =
      (limits.firstExceeded? e ds).or (limits.firstExceeded? (e.addAll ds) es) := by
  induction ds generalizing e with
  | nil => rfl
  | cons d ds ih =>
    rw [List.cons_append, firstExceeded?, ih, firstExceeded?, Option.or_assoc, Extent.addAll_cons]

/-- A demand that exceeds a limit is that of a leaf, and it finds the table full, or the stack. -/
theorem exceeded?_eq_some {v : Violation} (h : limits.exceeded? e d = some v) :
    (∃ capacity ∈ limits.maxStackDepth, capacity < d.treesAfter e.trees ∧
        v = .stackOverflow capacity) ∨
      ∃ capacity ∈ limits.maxSymbols, capacity < e.names + d.nameCount ∧
        v = .symbolCapacityExceeded capacity := by
  cases d with
  | branch arity => cases h
  | leaf named =>
    rw [exceeded?, Option.or_eq_some_iff] at h
    rcases h with h | ⟨-, h⟩
    · cases named with
      | false => cases h
      | true =>
        obtain ⟨capacity, hc, rfl⟩ := Option.map_eq_some_iff.1 h
        obtain ⟨hc, hle⟩ := Option.filter_eq_some_iff.1 hc
        exact .inr ⟨capacity, hc, Nat.lt_succ_of_le (of_decide_eq_true hle), rfl⟩
    · obtain ⟨capacity, hc, rfl⟩ := Option.map_eq_some_iff.1 h
      obtain ⟨hc, hle⟩ := Option.filter_eq_some_iff.1 hc
      exact .inl ⟨capacity, hc, Nat.lt_succ_of_le (of_decide_eq_true hle), rfl⟩

/-- A demand that exceeds no limit leaves the workspace within the limits. A branch of no
    children grows the stack without asking. -/
theorem Allow.add (ha : limits.Allow e.trees e.names) (hd : d ≠ .branch 0)
    (h : limits.exceeded? e d = none) : limits.Allow (e.add d).trees (e.add d).names := by
  cases d with
  | branch arity =>
    have harity : arity ≠ 0 := fun hz => hd (hz ▸ rfl)
    refine ⟨fun capacity hc => ?_, ha.2⟩
    have hle := ha.1 capacity hc
    simp only [Extent.add, Demand.treesAfter]
    omega
  | leaf named =>
    rw [exceeded?, Option.or_eq_none_iff, Option.map_eq_none_iff, Option.map_eq_none_iff] at h
    constructor
    · intro capacity hc
      have hlt : e.trees < capacity := by simpa using Option.filter_eq_none_iff.1 h.2 capacity hc
      exact hlt
    · intro capacity hc
      cases named with
      | false => exact ha.2 capacity hc
      | true =>
        have hn := Option.filter_eq_none_iff.1 h.1 capacity hc
        have hlt : e.names < capacity := by simpa using hn
        exact hlt

/-- The first violation tells which limit is exceeded: by the peak, or by the names. -/
theorem firstExceeded?_eq_some {v : Violation} (h : limits.firstExceeded? e ds = some v) :
    (∃ capacity ∈ limits.maxStackDepth, capacity < Demand.peak e.trees ds ∧
        v = .stackOverflow capacity) ∨
      ∃ capacity ∈ limits.maxSymbols, capacity < e.names + Demand.nameCounts ds ∧
        v = .symbolCapacityExceeded capacity := by
  induction ds generalizing e with
  | nil => cases h
  | cons d ds ih =>
    rw [firstExceeded?, Option.or_eq_some_iff] at h
    rw [Demand.nameCounts, Demand.peak]
    have hpeak := Demand.le_peak (d.treesAfter e.trees) ds
    rcases h with h | ⟨-, h⟩
    · rcases exceeded?_eq_some h with ⟨capacity, hc, hlt, rfl⟩ | ⟨capacity, hc, hlt, rfl⟩
      · exact .inl ⟨capacity, hc, by omega, rfl⟩
      · exact .inr ⟨capacity, hc, by omega, rfl⟩
    · rcases ih h with ⟨capacity, hc, hlt, rfl⟩ | ⟨capacity, hc, hlt, rfl⟩
      · exact .inl ⟨capacity, hc, Nat.lt_of_lt_of_le hlt (Nat.le_max_right _ _), rfl⟩
      · exact .inr ⟨capacity, hc, by rw [← Nat.add_assoc]; exact hlt, rfl⟩

/-- From an extent within the limits, no demand exceeds a limit if and only if the peak and
    all names are within the limits. -/
theorem firstExceeded?_eq_none_iff (ha : limits.Allow e.trees e.names) (hds : .branch 0 ∉ ds) :
    limits.firstExceeded? e ds = none ↔
      limits.Allow (Demand.peak e.trees ds) (e.names + Demand.nameCounts ds) := by
  constructor
  · intro h
    induction ds generalizing e with
    | nil => exact ha
    | cons d ds ih =>
      rw [firstExceeded?, Option.or_eq_none_iff] at h
      rw [List.mem_cons, not_or] at hds
      obtain ⟨ht, hn⟩ := ih (ha.add (Ne.symm hds.1) h.1) hds.2 h.2
      rw [Demand.nameCounts, ← Nat.add_assoc]
      exact ⟨fun capacity hc => Nat.max_le.2 ⟨ha.1 capacity hc, ht capacity hc⟩, hn⟩
  · intro h
    cases hv : limits.firstExceeded? e ds with
    | none => rfl
    | some v =>
      rcases firstExceeded?_eq_some hv with ⟨capacity, hc, hlt, -⟩ | ⟨capacity, hc, hlt, -⟩
      · exact absurd (h.1 capacity hc) (Nat.not_le.2 hlt)
      · exact absurd (h.2 capacity hc) (Nat.not_le.2 hlt)

/-- Where there is room for the peak, the first violation is that of the table, if the names are
    more than the table takes. -/
theorem firstExceeded?_eq_some_iff {v : Violation}
    (hp : ∀ capacity ∈ limits.maxStackDepth, Demand.peak e.trees ds ≤ capacity)
    (hn : ∀ capacity ∈ limits.maxSymbols, e.names ≤ capacity) (hds : .branch 0 ∉ ds) :
    limits.firstExceeded? e ds = some v ↔
      ∃ capacity ∈ limits.maxSymbols, capacity < e.names + Demand.nameCounts ds ∧
        v = .symbolCapacityExceeded capacity := by
  have hsome {v : Violation} (hv : limits.firstExceeded? e ds = some v) :
      ∃ capacity ∈ limits.maxSymbols, capacity < e.names + Demand.nameCounts ds ∧
        v = .symbolCapacityExceeded capacity := by
    rcases firstExceeded?_eq_some hv with ⟨capacity, hc, hlt, -⟩ | h
    · exact absurd (hp capacity hc) (Nat.not_le.2 hlt)
    · exact h
  refine ⟨hsome, ?_⟩
  rintro ⟨capacity, hc, hlt, rfl⟩
  have hstart : limits.Allow e.trees e.names :=
    ⟨fun capacity hc => Nat.le_trans (Demand.le_peak _ _) (hp capacity hc), hn⟩
  cases hv : limits.firstExceeded? e ds with
  | none =>
    have hallow := (firstExceeded?_eq_none_iff hstart hds).1 hv
    exact absurd (hallow.2 capacity hc) (Nat.not_le.2 hlt)
  | some v =>
    -- There is only one limit on the names.
    obtain ⟨capacity', hc', -, rfl⟩ := hsome hv
    rw [Option.some.inj (hc'.symm.trans hc)]

/-- A limit on the stack alone is reported once the peak is above it. -/
theorem firstExceeded?_of_lt_peak {capacity : Nat} (he : e.trees ≤ capacity) (hds : .branch 0 ∉ ds)
    (hp : capacity < Demand.peak e.trees ds) :
    (⟨some capacity, none⟩ : Limits).firstExceeded? e ds = some (.stackOverflow capacity) := by
  cases hv : (⟨some capacity, none⟩ : Limits).firstExceeded? e ds with
  | none =>
    have ha : (⟨some capacity, none⟩ : Limits).Allow e.trees e.names :=
      ⟨fun c hc => Option.some.inj hc ▸ he, nofun⟩
    exact absurd (((firstExceeded?_eq_none_iff ha hds).1 hv).1 capacity rfl) (Nat.not_le.2 hp)
  | some v =>
    rcases firstExceeded?_eq_some hv with ⟨c, hc, -, rfl⟩ | ⟨c, hc, -, -⟩
    · rw [Option.some.inj hc]
    · cases hc

end Limits

end Arbor
