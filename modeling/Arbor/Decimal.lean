/-!
# Decimal numerals

A decimal numeral is a whole number times a power of ten, with a sign. Formats
differ in how they spell numerals, and share what the parts of one mean.
-/

namespace Arbor

/-- The number `± digits · 10 ^ exponent`. -/
structure Decimal where
  negative : Bool
  digits : Nat
  exponent : Int
  deriving DecidableEq

namespace Decimal

/-- The numeral with these digits before and after the point, and this power of ten. -/
def ofParts (negative : Bool) (whole fraction : List Char) (exponent : Int) : Decimal where
  negative
  digits := Nat.ofDigitChars 10 (whole ++ fraction) 0
  exponent := exponent - fraction.length

/-- The signed number that digits spell, with `-` or `+` or nothing in front. -/
def signed (digits : List Char) : Int :=
  match digits with
  | '-' :: digits => -(Nat.ofDigitChars 10 digits 0 : Int)
  | '+' :: digits => Nat.ofDigitChars 10 digits 0
  | _ => Nat.ofDigitChars 10 digits 0

end Decimal

end Arbor
