import FormulaSheet.Builtin.Sort
import FormulaSheet.Double

/-!
# Statistics of numbers

The figures that aggregates compute of numbers that are no NaN.  An average of
nothing is NaN, and so is the variance of fewer than two numbers.  Medians and
percentiles sort by the total order of numbers, in which numbers that tie are
the same number, so they do not depend on the order of their input.
-/

namespace FormulaSheet.Statistics

/-- The numbers in their total order. -/
def sorted : List Float → List Float :=
  sortBy fun x y => (Double.of x).place ≤ (Double.of y).place

/-- The arithmetic mean. -/
def mean (xs : List Float) : Float :=
  if xs.isEmpty then Number.nan else Number.sum xs / Number.ofNat xs.length

/-- The sample variance. -/
def variance (xs : List Float) : Float :=
  if xs.length < 2 then Number.nan
  else
    let m := mean xs
    Number.sum (xs.map fun x => (x - m) * (x - m)) / Number.ofNat (xs.length - 1)

/-- The least number, or NaN. -/
def minimum (xs : List Float) : Float :=
  if xs.isEmpty then Number.nan else xs.foldl Number.lesser Number.infinity

/-- The greatest number, or NaN. -/
def maximum (xs : List Float) : Float :=
  if xs.isEmpty then Number.nan else xs.foldl Number.greater (-Number.infinity)

/-- The middle number, or the mean of the middle two. -/
def median (xs : List Float) : Float :=
  let ys := sorted xs
  let middle := ys.length / 2
  match ys[middle]? with
  | none => Number.nan
  | some y =>
    if ys.length % 2 = 0 then (ys.getD (middle - 1) Number.nan + y) / 2 else y

/-- The number at a part `p` of the way through the numbers in order, by
linear interpolation. -/
def percentile (xs : List Float) (p : Float) : Float :=
  let ys := sorted xs
  if ys.isEmpty then Number.nan
  else
    let rank := p * Number.ofNat (ys.length - 1)
    let low := Number.toIndex (Number.floor rank)
    let high := Number.toIndex (Number.ceil rank)
    let weight := rank - Number.ofNat low
    let lower := ys.getD low Number.nan
    lower + (ys.getD high Number.nan - lower) * weight

/-- How often a number occurs. -/
def occurrences (x : Float) (xs : List Float) : Nat := (xs.filter (· == x)).length

/-- The most frequent of the candidates among all numbers; the first of
several. -/
def mostFrequent (all : List Float) : (best : Option (Float × Nat)) → List Float → Option Float
  | best, [] => best.map (·.1)
  | best, x :: xs =>
    let n := occurrences x all
    if best.all (fun b => b.2 < n) then mostFrequent all (some (x, n)) xs
    else mostFrequent all best xs

/-- The most frequent number, the first of several. -/
def mode (xs : List Float) : Option Float := mostFrequent xs none xs

/-- How many standard deviations `x` lies above the mean, if there is a
deviation. -/
def zscore? (x : Float) (xs : List Float) : Option Float :=
  let deviation := (variance xs).sqrt
  if deviation == 0 || deviation.isNaN then none else some ((x - mean xs) / deviation)

/-- Rounds to a number of decimal places, halves upwards. -/
def round (x places : Float) : Float :=
  let factor := Float.pow 10 (Number.trunc places)
  Number.floor (x * factor + 0.5) / factor

end FormulaSheet.Statistics
