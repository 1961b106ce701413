import FormulaSheet.Character.Blank
import FormulaSheet.Number.Exact
import FormulaSheet.Number.Shortest

/-!
# Numbers as text

How formulas write and read numbers.

* `Number.text` — an integer with all its digits, any other number with the
  fewest digits that single it out and never an exponent; both zeros are `0`,
  and the three values that are no real number go by name.
* `Number.debugText` — a number as diagnostics show it: a point at least, and
  an exponent where positional writing would be long.
* `Number.ofDecimal?` — a decimal with an optional sign and exponent, read as
  the nearest number.
* `Number.ofText?` — text taken for a number: a decimal or an infinity between
  blanks; blank text is zero.
-/

namespace FormulaSheet.Number

open Float.Model

/-- A minus sign or nothing. -/
def signText : UnpackedFloat.Sign → List Char
  | .negative => ['-']
  | .positive => []

/-- The text of a number in formulas. -/
def text (x : Float) : List Char :=
  match x.toModel.unpack with
  | .notANumber => ['N', 'a', 'N']
  | .infinity sign => signText sign ++ "Infinity".toList
  | .zero _ => ['0']
  | .finite sign m e _ =>
    signText sign ++
      (if 0 ≤ e then Nat.toDigits 10 (m <<< e.toNat)
       else
        let whole := m >>> (-e).toNat
        if whole <<< (-e).toNat = m then Nat.toDigits 10 whole
        else (Decimal.shortest m e).positional)

/-- The text of a number in diagnostics: between 10⁻⁴ and 10¹⁶ with a point
and no exponent, outside with an exponent. -/
def debugText (x : Float) : List Char :=
  match x.toModel.unpack with
  | .notANumber => ['N', 'a', 'N']
  | .infinity sign => signText sign ++ ['i', 'n', 'f']
  | .zero sign => signText sign ++ ['0', '.', '0']
  | .finite sign m e _ =>
    let d := Decimal.shortest m e
    let places := d.exponent + d.numerals.length
    signText sign ++
      (if 16 < places ∨ places < -3 then d.scientific
       else
        let t := d.positional
        if t.contains '.' then t else t ++ ['.', '0'])

/-- The value of a run of digits. -/
def ofDigits (ds : List Char) : Nat :=
  ds.foldl (fun n c => 10 * n + (c.toNat - '0'.toNat)) 0

/-- The number nearest to `mantissa · 10 ^ exponent`. -/
def ofDecimal (mantissa : Nat) (exponent : Int) : Float :=
  Float.ofScientific mantissa (exponent < 0) exponent.natAbs

/-- A sign at the front, and what follows it. -/
def takeSign : List Char → Bool × List Char
  | '-' :: cs => (true, cs)
  | '+' :: cs => (false, cs)
  | cs => (false, cs)

/-- An exponent part to the end of the text, or no text at all. -/
def readExponent? : List Char → Option Int
  | [] => some 0
  | c :: cs =>
    if c = 'e' ∨ c = 'E' then
      let (negative, ds) := takeSign cs
      if ds.isEmpty ∨ ds.any (fun d => !d.isDigit) then none
      else some (if negative then -(ofDigits ds : Int) else ofDigits ds)
    else none

/-- Reads digits with an optional point among or around them and an optional
exponent; there must be a digit beside the point. -/
def ofUnsigned? (cs : List Char) : Option Float :=
  let whole := cs.takeWhile Char.isDigit
  let rest := cs.dropWhile Char.isDigit
  let (fraction, rest) := match rest with
    | '.' :: cs => (cs.takeWhile Char.isDigit, cs.dropWhile Char.isDigit)
    | _ => ([], rest)
  if whole.isEmpty ∧ fraction.isEmpty then none
  else
    (readExponent? rest).map fun e =>
      ofDecimal (ofDigits (whole ++ fraction)) (e - fraction.length)

/-- Reads a decimal with an optional sign. -/
def ofDecimal? (cs : List Char) : Option Float :=
  let (negative, rest) := takeSign cs
  (ofUnsigned? rest).map fun x => if negative then -x else x

/-- Reads text as a number.  Letters spell only infinities and exponents. -/
def ofText? (cs : List Char) : Option Float :=
  let cs := Character.trim cs
  if cs.isEmpty then some 0
  else if cs = "Infinity".toList ∨ cs = "+Infinity".toList then some infinity
  else if cs = "-Infinity".toList then some (-infinity)
  else if cs.any (fun c => c.isAlpha && c != 'e' && c != 'E') then none
  else ofDecimal? cs

end FormulaSheet.Number
