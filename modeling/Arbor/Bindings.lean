/-!
# Bindings

Pairs of a name and what it stands for, in the order of the names and each name
at most once. `Bindings.place` keeps this order, and lists that have it are equal
as soon as they give the same answers to `Bindings.find` (`Bindings.ext_find`).
-/

namespace Arbor

/-- What names stand for. -/
abbrev Bindings (α : Type) := List (String × α)

namespace Bindings

variable {α : Type}

/-- In the order of the names, without a name twice. -/
abbrev Sorted (bindings : Bindings α) : Prop := bindings.Pairwise (·.1 < ·.1)

/-- What a name stands for. -/
def find (name : String) : Bindings α → Option α
  | [] => none
  | (key, value) :: rest => if key = name then some value else find name rest

/-- Puts a binding where it belongs, in place of an earlier one of its name. -/
def place (name : String) (value : α) : Bindings α → Bindings α
  | [] => [(name, value)]
  | (key, old) :: rest =>
    if name < key then (name, value) :: (key, old) :: rest
    else if key = name then (name, value) :: rest
    else (key, old) :: place name value rest

theorem lt_place {name key : String} {value : α} (hk : key < name) {bindings : Bindings α}
    (h : ∀ b ∈ bindings, key < b.1) : ∀ b ∈ place name value bindings, key < b.1 := by
  induction bindings with
  | nil => simpa [place] using hk
  | cons b bindings ih =>
    simp only [List.forall_mem_cons] at h
    unfold place
    split
    · simp only [List.forall_mem_cons]
      exact ⟨hk, h⟩
    · split
      · simp only [List.forall_mem_cons]
        exact ⟨hk, h.2⟩
      · simp only [List.forall_mem_cons]
        exact ⟨h.1, ih h.2⟩

/-- A name that neither comes before another nor is the same comes after it. -/
theorem lt_of_not_lt_of_ne {a b : String} (h : ¬ a < b) (hne : b ≠ a) : b < a :=
  Decidable.byContradiction fun h' => hne (String.le_antisymm h h')

theorem sorted_place {name : String} {value : α} {bindings : Bindings α} (h : bindings.Sorted) :
    (place name value bindings).Sorted := by
  induction bindings with
  | nil => simp [place]
  | cons b bindings ih =>
    rw [Sorted, List.pairwise_cons] at h
    unfold place
    split
    · next hlt =>
      refine List.pairwise_cons.2 ⟨?_, List.pairwise_cons.2 h⟩
      simp only [List.forall_mem_cons]
      exact ⟨hlt, fun c hc => String.lt_trans hlt (h.1 c hc)⟩
    · next hlt =>
      split
      · next he =>
        subst he
        exact List.pairwise_cons.2 h
      · next hne =>
        exact List.pairwise_cons.2 ⟨lt_place (lt_of_not_lt_of_ne hlt hne) h.1, ih h.2⟩

theorem find_place (name : String) (value : α) (bindings : Bindings α) (other : String) :
    find other (place name value bindings) =
      if other = name then some value else find other bindings := by
  induction bindings with
  | nil => simp [place, find, eq_comm]
  | cons b bindings ih =>
    unfold place
    split
    · simp [find, eq_comm]
    · split
      · next hb =>
        by_cases h : other = name
        · simp [find, h]
        · simp [find, h, hb, Ne.symm h]
      · next hb =>
        simp only [find, ih]
        by_cases h : other = name
        · simp [h, hb]
        · simp [h]

theorem find_eq_none_of_lt {name : String} {bindings : Bindings α}
    (h : ∀ b ∈ bindings, name < b.1) : find name bindings = none := by
  induction bindings with
  | nil => rfl
  | cons b bindings ih =>
    rw [List.forall_mem_cons] at h
    rw [find, if_neg, ih h.2]
    rintro rfl
    exact String.lt_irrefl _ h.1

theorem ext_find {as bs : Bindings α} (ha : as.Sorted) (hb : bs.Sorted)
    (h : ∀ name, find name as = find name bs) : as = bs := by
  induction as generalizing bs with
  | nil =>
    cases bs with
    | nil => rfl
    | cons b bs => simpa [find] using h b.1
  | cons a as ih =>
    cases bs with
    | nil => simpa [find] using h a.1
    | cons b bs =>
      rw [Sorted, List.pairwise_cons] at ha hb
      have hab : ¬ a.1 < b.1 := fun hlt => by
        have hn := @find_eq_none_of_lt _ a.1 (b :: bs)
          (List.forall_mem_cons.2 ⟨hlt, fun c hc => String.lt_trans hlt (hb.1 c hc)⟩)
        rw [← h] at hn
        simp [find] at hn
      have hba : ¬ b.1 < a.1 := fun hlt => by
        have hn := @find_eq_none_of_lt _ b.1 (a :: as)
          (List.forall_mem_cons.2 ⟨hlt, fun c hc => String.lt_trans hlt (ha.1 c hc)⟩)
        rw [h] at hn
        simp [find] at hn
      have hk : a.1 = b.1 := String.le_antisymm hba hab
      have hv : a.2 = b.2 := by simpa [find, hk] using h b.1
      have hr : as = bs := by
        refine ih ha.2 hb.2 fun name => ?_
        by_cases hn : a.1 = name
        · rw [find_eq_none_of_lt (hn ▸ ha.1), find_eq_none_of_lt (hn ▸ hk ▸ hb.1)]
        · have hs := h name
          rwa [find, find, if_neg hn, if_neg (hk ▸ hn)] at hs
      rw [hr, Prod.ext hk hv]

/-- The bindings of a list, the last one of each name. -/
def ofList (pairs : List (String × α)) : Bindings α :=
  pairs.foldl (fun bindings (name, value) => place name value bindings) []

end Bindings

end Arbor
