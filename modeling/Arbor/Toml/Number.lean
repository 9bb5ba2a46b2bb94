import Arbor.Integer
import Arbor.Text.CodePoint
import Arbor.Toml
import Arbor.Toml.Quoted

/-!
# Numbers of TOML documents

Whole numbers are written in decimal, hexadecimal, octal or binary digits and have
64 bits; numbers with a fraction or an exponent are doubles. A single `_` may stand
between any two digits.
-/

namespace Arbor

namespace Toml

open Reader

/-- Digits, without the marks between them. -/
def digits (isDigit : Char → Bool) : Reader (List Char) := do
  let first ← char isDigit
  let marked : Reader Char := do
    literal ['_']
    required (char isDigit)
  return first :: (← many (orElse (char isDigit) marked))

/-- A sign, if there is one. -/
def sign : Reader (Option Char) := optional (char fun c => c == '+' || c == '-')

/-- Decimal digits, of which only a zero alone starts with a zero. -/
def wholeDigits : Reader (List Char) := do
  match (← here).head? with
  | some '0' => do
    literal ['0']
    return ['0']
  | _ => digits Char.isDigit

/-- Digits of the base behind a letter. -/
def based (letter : Char) (base : Nat) : Reader Toml := do
  let start ← here
  literal ['0', letter]
  let ds ← required (digits fun c => (Text.hexValue? c).any (· < base))
  let value := ds.foldl (fun n c => n * base + (Text.hexValue? c).getD 0) 0
  match Integer.ofInt? value with
  | some w => return .int w
  | none => mistakeAt start

/-- A power of ten behind its letter. -/
def exponent : Reader Int := do
  let _ ← char fun c => c == 'e' || c == 'E'
  let s ← sign
  let n := Nat.ofDigitChars 10 (← required (digits Char.isDigit)) 0
  return if s = some '-' then -n else n

/-- A number in decimal digits, which is whole unless a fraction or an exponent follows. -/
def decimal : Reader Toml := do
  let start ← here
  let negative := (← sign) = some '-'
  let whole ← wholeDigits
  let fraction ← optional do
    literal ['.']
    required (digits Char.isDigit)
  let power ← optional exponent
  match fraction, power with
  | none, none =>
    let n : Int := Nat.ofDigitChars 10 whole 0
    match Integer.ofInt? (if negative then -n else n) with
    | some w => return .int w
    | none => mistakeAt start
  | _, _ =>
    let x := Double.ofDecimal (.ofParts negative whole (fraction.getD []) (power.getD 0))
    -- Far below zero lies minus infinity, but a number must not be too large.
    if x = .infinite false then mistakeAt start
    return .float x

/-- The numbers that have names. -/
def named : Reader Toml := do
  let negative := (← sign) = some '-'
  orElse
    (do literal ['i', 'n', 'f']; return .float (.infinite negative))
    (do literal ['n', 'a', 'n']; return .float .nan)

/-- A number. -/
def number : Reader Toml :=
  orElse (based 'x' 16) (orElse (based 'o' 8) (orElse (based 'b' 2) (orElse named decimal)))

end Toml

end Arbor
