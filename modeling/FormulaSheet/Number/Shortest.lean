/-!
# The shortest decimal of a number

A finite number is written with the fewest decimal digits that single it out
among all numbers: the reals that round to `m · 2 ^ e` form an interval, and
the coarsest decimal grid with a point in that interval wins.  Of two points
the nearer is taken, and of two equally near the greater.

All of it is arithmetic on natural numbers.  The interval is measured in
quarters of `2 ^ e`, because its lower half is only a quarter wide where the
exponent is about to drop.
-/

namespace FormulaSheet

/-- The decimal number `digits · 10 ^ exponent`. -/
structure Decimal where
  digits : Nat
  exponent : Int
deriving DecidableEq, Repr

namespace Decimal

/-- The reals that round to `mantissa · 2 ^ exponent`, in quarters of
`2 ^ exponent`: bounds around the value, which belong to it or not. -/
structure Basin where
  low : Nat
  value : Nat
  high : Nat
  closed : Bool
  exponent : Int

/-- The basin of the number `mantissa · 2 ^ exponent`. -/
def basin (mantissa : Nat) (exponent : Int) : Basin where
  low := if mantissa = Nat.pow 2 52 ∧ -1074 < exponent then 4 * mantissa - 1 else 4 * mantissa - 2
  value := 4 * mantissa
  high := 4 * mantissa + 2
  closed := mantissa % 2 == 0
  exponent := exponent

namespace Basin

/-- What a grid point is multiplied by to be compared with the bounds. -/
def gridScale (b : Basin) (grid : Int) : Nat :=
  Nat.pow 10 grid.toNat * Nat.pow 2 (2 - b.exponent).toNat

/-- What a bound is multiplied by to be compared with points of the grid. -/
def boundScale (b : Basin) (grid : Int) : Nat :=
  Nat.pow 2 (b.exponent - 2).toNat * Nat.pow 10 (-grid).toNat

/-- The point of the grid of multiples of `10 ^ grid` that lies in the basin
and is nearest to the value. -/
def nearest? (b : Basin) (grid : Int) : Option Nat :=
  let point := b.gridScale grid
  let bound := b.boundScale grid
  let value := b.value * bound
  let below := value / point
  let above := below + 1
  let belowIn :=
    if b.closed then b.low * bound ≤ below * point else b.low * bound < below * point
  let aboveIn :=
    if b.closed then above * point ≤ b.high * bound else above * point < b.high * bound
  if belowIn then
    if aboveIn ∧ above * point - value ≤ value - below * point then some above
    else some below
  else if aboveIn then some above
  else none

/-- The number of decimal digits before the point of the value, negative for
leading zeros behind it. -/
def magnitude (b : Basin) : Int :=
  let bits : Int := b.value.log2 + b.exponent - 2
  let guess := Int.fdiv (bits * 30103) 100000 + 1
  if b.gridScale guess ≤ b.value * b.boundScale guess then guess + 1 else guess

/-- The first grid from `grid` on, each ten times finer than the last, that
has a point in the basin. -/
def search (b : Basin) : Nat → Int → Decimal
  | 0, grid => ⟨b.value * b.boundScale grid / b.gridScale grid, grid⟩
  | n + 1, grid =>
    match b.nearest? grid with
    | some digits => if digits = 10 then ⟨1, grid + 1⟩ else ⟨digits, grid⟩
    | none => b.search n (grid - 1)

end Basin

/-- The shortest decimal that singles out the number `mantissa · 2 ^ exponent`;
seventeen digits always do. -/
def shortest (mantissa : Nat) (exponent : Int) : Decimal :=
  let b := basin mantissa exponent
  b.search 17 (b.magnitude - 1)

/-- The digits of the decimal, without sign, point or exponent. -/
def numerals (d : Decimal) : List Char := Nat.toDigits 10 d.digits

/-- The decimal written out with a point and no exponent. -/
def positional (d : Decimal) : List Char :=
  let ds := d.numerals
  let behind := (-d.exponent).toNat
  if behind = 0 then ds ++ List.replicate d.exponent.toNat '0'
  else if behind < ds.length then
    ds.take (ds.length - behind) ++ '.' :: ds.drop (ds.length - behind)
  else '0' :: '.' :: List.replicate (behind - ds.length) '0' ++ ds

/-- The decimal with one digit before the point, and its power of ten. -/
def scientific (d : Decimal) : List Char :=
  let ds := d.numerals
  let power := d.exponent + (ds.length - 1 : Nat)
  let lead := match ds with
    | [] => []
    | [c] => [c]
    | c :: cs => c :: '.' :: cs
  let sign := if power < 0 then ['-'] else []
  lead ++ 'e' :: sign ++ Nat.toDigits 10 power.natAbs

end Decimal

end FormulaSheet
