import Arbor.Integer
import Arbor.Text.CodePoint

/-!
# Numerals

The decimal text of an integer is a sign, if it is negative, and the digits of its absolute value
(`Integer.toList_toString`), so that the integer is read back from it (`Integer.ofText_toString`).
Hexadecimal digits are read as what they stand for
(`Text.hexValue?_digitChar`), and a code point as its character (`Text.char?_toNat`). A numeral, as
any run of characters of one sort, ends where the text does not go on with that sort
(`Text.takeWhile_append_of_head?`).
-/

namespace Arbor

namespace Integer

/-- The sign in front of the digits of an integer. -/
def sign (n : Int) : List Char := if n < 0 then ['-'] else []

/-- An integer is written by its sign and the digits of its absolute value. -/
theorem toList_toString (n : Int) :
    (toString n).toList = sign n ++ Nat.toDigits 10 n.natAbs := by
  rw [Int.toString_eq_repr, Int.repr_eq_if, sign]
  split
  · next h =>
    have habs : n.natAbs = n.toNat := by omega
    rw [if_neg (Int.not_lt.2 h), habs, Nat.toList_repr, List.nil_append]
  · next h =>
    have habs : n.natAbs = (-n).toNat := by omega
    rw [if_pos (Int.not_le.1 h), habs, String.toList_append, Nat.toList_repr]
    rfl

/-- There are only a sign and digits in the text of an integer. -/
theorem eq_or_isDigit_of_mem_toString {n : Int} {c : Char} (h : c ∈ (toString n).toList) :
    c = '-' ∨ c.isDigit = true := by
  rw [toList_toString, List.mem_append] at h
  rcases h with hsign | hdigit
  · unfold sign at hsign
    split at hsign
    · exact .inl (List.mem_singleton.1 hsign)
    · cases hsign
  · exact .inr (Nat.isDigit_of_mem_toDigits (by decide) (by decide) hdigit)

/-- The integer that a sign and digits spell. -/
def ofText : List Char → Int
  | '-' :: digits => -(Nat.ofDigitChars 10 digits 0 : Nat)
  | digits => (Nat.ofDigitChars 10 digits 0 : Nat)

theorem ofText_toString (n : Int) : ofText (toString n).toList = n := by
  rw [toList_toString, sign]
  split
  · rw [List.singleton_append, ofText, Nat.ofDigitChars_ten_toDigits]
    omega
  · rw [List.nil_append, ofText, Nat.ofDigitChars_ten_toDigits]
    · omega
    · -- A sign is no digit.
      intro digits hdigits
      have hsign : '-' ∈ Nat.toDigits 10 n.natAbs := hdigits ▸ List.mem_cons_self
      exact absurd (Nat.isDigit_of_mem_toDigits (by decide) (by decide) hsign) (by decide)

end Integer

namespace Text

theorem hexValue?_digitChar : ∀ d < 16, hexValue? d.digitChar = some d := by decide

/-- A character is that of its code point. -/
theorem char?_toNat (c : Char) : char? c.toNat = some c := dif_pos c.valid

/-- A run of characters ends where the rest does not go on. -/
theorem takeWhile_append_of_head? {p : Char → Bool} {word rest : List Char}
    (hword : ∀ c ∈ word, p c = true) (hrest : ∀ c ∈ rest.head?, p c = false) :
    (word ++ rest).takeWhile p = word ∧ (word ++ rest).dropWhile p = rest := by
  rw [List.takeWhile_append_of_pos hword, List.dropWhile_append_of_pos hword]
  cases rest with
  | nil => exact ⟨List.append_nil word, rfl⟩
  | cons c rest =>
    have hc := Bool.eq_false_iff.1 (hrest c rfl)
    exact ⟨by rw [List.takeWhile_cons_of_neg hc, List.append_nil], List.dropWhile_cons_of_neg hc⟩

end Text

end Arbor
