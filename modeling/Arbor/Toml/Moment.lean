import Arbor.Toml
import Arbor.Toml.Quoted

/-!
# Dates and times of TOML documents

A date, a time of day, or both with a space or a `T` between them and, if wished,
the distance from universal time. Their text has a fixed form, whichever way they
were written: `T` between date and time, `Z` for no distance, and a fraction of a
second with nine digits at most and no zero at the end.
-/

namespace Arbor

namespace Toml

open Reader

/-- A number of exactly so many digits, between the least and the most one. -/
def field (width least most : Nat) : Reader (List Char) := fun text =>
  let digits := text.take width
  let n := Nat.ofDigitChars 10 digits 0
  if digits.length = width ∧ digits.all Char.isDigit ∧ least ≤ n ∧ n ≤ most then
    .ok (digits, text.drop width)
  else .error (.refusal text)

/-- The number of days of a month. -/
def daysOf (year month : Nat) : Nat :=
  if month = 2 then
    if year % 4 = 0 ∧ (year % 100 ≠ 0 ∨ year % 400 = 0) then 29 else 28
  else if month = 4 ∨ month = 6 ∨ month = 9 ∨ month = 11 then 30
  else 31

def date : Reader (List Char) := do
  let year ← field 4 0 9999
  literal ['-']
  required do
    let month ← field 2 1 12
    literal ['-']
    let day ← field 2 1 (daysOf (Nat.ofDigitChars 10 year 0) (Nat.ofDigitChars 10 month 0))
    return year ++ '-' :: month ++ '-' :: day

/-- The fraction of a second. -/
def fraction : Reader (List Char) := do
  literal ['.']
  let digits ← run Char.isDigit
  let kept := ((digits.take 9).reverse.dropWhile (· == '0')).reverse
  return if kept.isEmpty then [] else '.' :: kept

def timeOfDay : Reader (List Char) := do
  let hour ← field 2 0 23
  literal [':']
  required do
    let minute ← field 2 0 59
    literal [':']
    let second ← field 2 0 60
    let fraction ← optional fraction
    return hour ++ ':' :: minute ++ ':' :: second ++ fraction.getD []

/-- The distance from universal time. A negative one of no hours and minutes is positive. -/
def distance : Reader (List Char) :=
  orElse
    (do let _ ← char fun c => c == 'Z' || c == 'z'; return ['Z'])
    (do
      let s ← char fun c => c == '+' || c == '-'
      required do
        let hour ← field 2 0 23
        literal [':']
        let minute ← field 2 0 59
        let isZero := (hour ++ minute).all (· == '0')
        return (if isZero then '+' else s) :: hour ++ ':' :: minute)

/-- A date, a time of day, or both. -/
def dateOrTime : Reader Toml := do
  let time : Reader (List Char) := do
    let _ ← char fun c => c == 'T' || c == 't' || c == ' '
    let time ← timeOfDay
    return 'T' :: time ++ (← optional distance).getD []
  let text ← orElse (do return (← date) ++ (← optional time).getD []) timeOfDay
  return .moment (String.ofList text)

end Toml

end Arbor
