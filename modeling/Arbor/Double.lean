import Arbor.Decimal

/-!
# Doubles

Numbers that are not whole are kept with a mantissa of 53 bits. A decimal numeral
stands for the nearest such number, of two equally near the one with an even
mantissa (`Double.ofDecimal`), and a number is written with the fewest digits that
stand for it (`Double.shortest`). All arithmetic is on whole numbers.
-/

namespace Arbor

/-- A binary number. -/
inductive Double
  | nan
  | infinite (negative : Bool)
  /-- The number `± mantissa · 2 ^ exponent`. -/
  | finite (negative : Bool) (mantissa : Nat) (exponent : Int)
  deriving DecidableEq

namespace Double

/-- The exponent of the finest grid of numbers. -/
def minExponent : Int := -1074

/-- The exponent of the coarsest grid of numbers. -/
def maxExponent : Int := 971

/-- `n / d` as a whole number, a half rounded to the even neighbour. -/
def divideEven (n d : Nat) : Nat :=
  let q := n / d
  let r := n % d
  if 2 * r < d then q else if d < 2 * r then q + 1 else q + q % 2

/-- The power `b ^ e`, or one if `e` is negative. -/
def power (b : Nat) (e : Int) : Nat := Nat.pow b e.toNat

/-! ### Reading -/

/-- The largest `e` with `2 ^ e ≤ n / d`, for positive `n` and `d`. -/
def binaryExponent (n d : Nat) : Int :=
  let e : Int := (Nat.log2 n : Int) - Nat.log2 d
  if n * power 2 (-e) < d * power 2 e then e - 1 else e

/-- The number nearest to `± n / d`, for positive `n` and `d`. -/
def nearest (negative : Bool) (n d : Nat) : Double :=
  let e := max (binaryExponent n d - 52) minExponent
  let m := divideEven (n * power 2 (-e)) (d * power 2 e)
  let (m, e) := if m = power 2 53 then (power 2 52, e + 1) else (m, e)
  if maxExponent < e then infinite negative else finite negative m e

/-- The number that a numeral stands for. Its order of magnitude is looked at first, so
    that numerals far out of the range need no large powers. -/
def ofDecimal (x : Decimal) : Double :=
  let magnitude := x.exponent + (Nat.log2 x.digits * 30103 / 100000 : Nat)
  if x.digits = 0 ∨ magnitude < -350 then finite x.negative 0 minExponent
  else if 350 < magnitude then infinite x.negative
  else nearest x.negative (x.digits * power 10 x.exponent) (power 10 (-x.exponent))

/-- The number is neither infinite nor undefined. -/
def isFinite : Double → Bool
  | finite _ _ _ => true
  | _ => false

def isZero : Double → Bool
  | finite _ m _ => m == 0
  | _ => false

/-- The whole number nearest to `m · 2 ^ q`, a half rounded up. -/
def round (m : Nat) (q : Int) : Nat :=
  (2 * m * power 2 q + power 2 (-q)) / (2 * power 2 (-q))

/-- The nearest whole number between zero and `most`. -/
def clamp (most : Nat) : Double → Nat
  | nan => 0
  | infinite negative => if negative then 0 else most
  | finite negative m q => if negative then 0 else min most (round m q)

/-! ### Writing -/

/-- A multiple of `10 ^ g` that stands for `m · 2 ^ q`, the nearest one if possible.
    Everything is scaled such that the number, its distance to the middles between
    it and its neighbours, and the power of ten are whole. -/
def onGrid (m : Nat) (q g : Int) : Option Nat :=
  let unit := power 10 (-g)
  let value := m * power 2 (max q 2) * unit
  let above := power 2 (max q 2 - 1) * unit
  -- Below a power of two the numbers lie twice as close as above it.
  let below := if m = power 2 52 ∧ minExponent < q then above / 2 else above
  let step := power 10 g * power 2 (2 - q)
  let standsFor (c : Nat) : Bool :=
    if m % 2 = 0 then c * step ≤ value + above ∧ value ≤ c * step + below
    else c * step < value + above ∧ value < c * step + below
  [divideEven value step, value / step, value / step + 1].find? standsFor

/-- How many decimal places the whole part of a positive number has; if it has none,
    minus the number of zeros after the point. -/
def places (m : Nat) (q : Int) : Int :=
  (Nat.toDigits 10 (m * power 2 q * power 10 350 / power 2 (-q))).length - (350 : Int)

/-- The numeral of the fewest digits that stands for `m · 2 ^ q`, as its digits and the
    power of ten of the last one. Seventeen digits are always enough. -/
def shortest (m : Nat) (q : Int) : List Char × Int :=
  let found := (List.range 17).findSome? fun (n : Nat) =>
    let g := places m q - (n + 1)
    (onGrid m q g).map (·, g)
  match found with
  | some (c, g) =>
    let digits := Nat.toDigits 10 c
    let kept := (digits.reverse.dropWhile (· == '0')).reverse
    (kept, g + (digits.length - kept.length : Nat))
  | none => (['0'], 0)

/-- Digits with a point among them, `point` places after the first digit's left. -/
def withPoint (digits : List Char) (point : Int) : List Char :=
  let zeros (n : Int) : List Char := List.replicate n.toNat '0'
  if point ≤ 0 then ['0', '.'] ++ zeros (-point) ++ digits
  else if (digits.length : Int) ≤ point then digits ++ zeros (point - digits.length) ++ ['.', '0']
  else digits.take point.toNat ++ '.' :: digits.drop point.toNat

/-- Digits with a point after the first, and a power of ten. -/
def scientific (digits : List Char) (point : Int) : List Char :=
  let mantissa := match digits with
    | [] => []
    | [d] => [d]
    | d :: rest => d :: '.' :: rest
  mantissa ++ 'e' :: (toString (point - 1)).toList

/-- The text of a number, in which `positional` says for the place of the point whether
    zeros are written out up to it. -/
def write (positional : Int → Bool) : Double → String
  | nan => "NaN"
  | infinite negative => if negative then "-inf" else "inf"
  | finite negative m q =>
    let text :=
      if m = 0 then ['0', '.', '0']
      else
        let (digits, g) := shortest m q
        let point := g + digits.length
        if positional point then withPoint digits point else scientific digits point
    String.ofList (if negative then '-' :: text else text)

/-- Text without powers of ten. -/
def positional (x : Double) : String := x.write fun _ => true

/-- Text with a power of ten for numbers below `0.00001` and from `10 ^ 16` on. -/
def text (x : Double) : String := x.write fun point => -5 < point ∧ point ≤ 16

end Double

end Arbor
