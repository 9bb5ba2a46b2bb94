import Arbor.Integer

/-!
# Numbers on the command line

A number is given in decimal digits with an optional sign. It is read from left to
right, and what is wrong with it is the first thing that makes it none.
-/

namespace Arbor

namespace CommandLine

/-- What is wrong with the text of a number. -/
inductive NumberError
  | empty
  | invalidDigit
  | tooLarge
  | tooSmall
  deriving DecidableEq

namespace NumberError

def message : NumberError → String
  | empty => "cannot parse integer from empty string"
  | invalidDigit => "invalid digit found in string"
  | tooLarge => "number too large to fit in target type"
  | tooSmall => "number too small to fit in target type"

end NumberError

/-- The number of `n` with more digits behind it, which is `most` at most. -/
def digitsFrom (most : Nat) (beyond : NumberError) (n : Nat) :
    List Char → Except NumberError Nat
  | [] => .ok n
  | c :: rest =>
    if !c.isDigit then .error .invalidDigit
    else
      let n := 10 * n + (c.toNat - '0'.toNat)
      if most < n then .error beyond else digitsFrom most beyond n rest

/-- The 64-bit integer that a text spells. -/
def number (text : String) : Except NumberError Int :=
  match text.toList with
  | [] => .error .empty
  | ['+'] | ['-'] => .error .invalidDigit
  | '+' :: digits => return (← digitsFrom Integer.largest .tooLarge 0 digits : Nat)
  | '-' :: digits => return -(← digitsFrom (Integer.largest + 1) .tooSmall 0 digits : Nat)
  | digits => return (← digitsFrom Integer.largest .tooLarge 0 digits : Nat)

end CommandLine

end Arbor
