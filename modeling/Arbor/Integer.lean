/-!
# 64-bit integers

Values of nodes and of expressions are 64-bit integers. Arithmetic on them is
*exact or absent*: an operation computes over the unbounded integers and has no
result when that lies outside the range, so nothing ever wraps. `ofInt?` is the
only way back from the unbounded integers, and `ofInt?_eq_some_iff` says that it
gives the 64-bit integer of the same value or none.
-/

namespace Arbor

namespace Integer

/-- The largest 64-bit integer. -/
def largest : Nat := 9223372036854775807

/-- The 64-bit integer of value `n`, if there is one. -/
def ofInt? (n : Int) : Option Int64 :=
  if -largest ≤ n + 1 ∧ n ≤ largest then some (Int64.ofInt n) else none

theorem ofInt?_eq_some_iff {n : Int} {w : Int64} : ofInt? n = some w ↔ w.toInt = n := by
  unfold ofInt?
  split
  · next h =>
    constructor
    · rintro ⟨⟩
      simp only [largest] at h
      exact Int64.toInt_ofInt_of_le (by omega) (by omega)
    · rintro rfl
      rw [Int64.ofInt_toInt]
  · next h =>
    constructor
    · nofun
    · rintro rfl
      have := w.le_toInt
      have := w.toInt_lt
      simp only [largest] at h
      omega

def add? (a b : Int64) : Option Int64 := ofInt? (a.toInt + b.toInt)

def sub? (a b : Int64) : Option Int64 := ofInt? (a.toInt - b.toInt)

def mul? (a b : Int64) : Option Int64 := ofInt? (a.toInt * b.toInt)

/-- The quotient rounded toward zero; a zero divisor has none, and neither has the
    smallest integer over `-1`. -/
def div? (a b : Int64) : Option Int64 :=
  if b = 0 then none else ofInt? (a.toInt.tdiv b.toInt)

/-- The decimal text, with a sign only in front of a negative integer. -/
def text (w : Int64) : String := toString w.toInt

/-- The index a value stands for; negative values stand for none. -/
def index? (w : Int64) : Option Nat :=
  if 0 ≤ w.toInt then some w.toInt.toNat else none

end Integer

end Arbor
