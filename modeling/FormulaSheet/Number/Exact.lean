/-!
# Exact steps on binary64 numbers

Core `Float` has sums, products, quotients and comparisons with a meaning in
the logic, but its `floor`, `ceil` and remainder have none.  They are defined
here on the mantissa and exponent of a number, where each of them is exact
integer arithmetic followed by one rounding that never rounds.
-/

namespace FormulaSheet.Number

open Float.Model

/-- Not a number; every undefined result is this one value. -/
def nan : Float := 0.0 / 0.0

/-- Positive infinity. -/
def infinity : Float := 1.0 / 0.0

/-- The number nearest to ± `mantissa` · 2 ^ `exponent`. -/
def ofScaled (sign : UnpackedFloat.Sign) (mantissa : Nat) (exponent : Int) : Float :=
  .ofModel (.pack
    (if mantissa = 0 then .zero sign
     else UnpackedFloat.round Format.binary64 sign mantissa exponent))

/-- Drops the fraction. -/
def trunc (x : Float) : Float :=
  match x.toModel.unpack with
  | .finite sign m e _ => if 0 ≤ e then x else ofScaled sign (m >>> (-e).toNat) 0
  | _ => x

/-- The greatest integer at most `x`. -/
def floor (x : Float) : Float :=
  match x.toModel.unpack with
  | .finite sign m e _ =>
    if 0 ≤ e then x
    else
      let whole := m >>> (-e).toNat
      match sign with
      | .positive => ofScaled .positive whole 0
      | .negative =>
        ofScaled .negative (if whole <<< (-e).toNat = m then whole else whole + 1) 0
  | _ => x

/-- The least integer at least `x`. -/
def ceil (x : Float) : Float := -(floor (-x))

/-- The remainder of `x` by `y`, with the sign of `x`, taken exactly. -/
def rem (x y : Float) : Float :=
  match x.toModel.unpack, y.toModel.unpack with
  | .notANumber, _ => nan
  | _, .notANumber => nan
  | .infinity _, _ => nan
  | _, .zero _ => nan
  | .zero _, _ => x
  | _, .infinity _ => x
  | .finite sign m e _, .finite _ n f _ =>
    let low := min e f
    ofScaled sign ((m <<< (e - low).toNat) % (n <<< (f - low).toNat)) low

/-- The integer part as a natural number: 0 for NaN and below 1, and at most
`2 ^ 64 - 1`. -/
def toIndex (x : Float) : Nat := x.toUInt64.toNat

/-- The number nearest to `n`. -/
def ofNat (n : Nat) : Float := Float.ofNat n

/-- The lesser of two numbers, the first where they compare equal. -/
def lesser (x y : Float) : Float := if y < x then y else x

/-- The greater of two numbers, the first where they compare equal. -/
def greater (x y : Float) : Float := if x < y then y else x

/-- Adds up from the left, starting at −0, so that no numbers add up to −0. -/
def sum (xs : List Float) : Float := xs.foldl (· + ·) (-0.0)

end FormulaSheet.Number
