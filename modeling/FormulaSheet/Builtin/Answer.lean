import FormulaSheet.Builtin
import FormulaSheet.Builtin.Sequences
import FormulaSheet.Builtin.Statistics
import FormulaSheet.Character.Case

/-!
# Answers of the plain built-in functions

Each plain built-in function answers any arguments with a value or a complaint
about them.
-/

namespace FormulaSheet.PlainBuiltin

open Arguments

/-- Whether an entry counts: neither null nor empty text. -/
def isFilled : Value → Bool
  | .null => false
  | .text s => !s.isEmpty
  | _ => true

/-- Whether the second argument asks for descending order. -/
def isDescending : Value → Bool
  | .text s => capitals s == "DESC"
  | _ => false

/-- How many characters of text or items of an array a value has. -/
def lengthOf : Value → Nat
  | .null => 0
  | .array vs => vs.length
  | v => v.toText.length

/-- Whether an array or a text holds a value. -/
def holds (haystack needle : Value) : Bool :=
  match haystack with
  | .array vs => vs.any fun v => v.looseEqual needle
  | .text s => Sequences.occursIn needle.toText.toList s.toList
  | _ => false

/-- The number that a function computes from operands. -/
def computed (nan : NanChoice) (p : PlainBuiltin) (operands : List Double) (x : Float) : Value :=
  .number (nan.settle p.profile.name operands x)

/-- The figure that a function computes from numbers, NaN for fewer of them
than it needs. -/
def figure (nan : NanChoice) (p : PlainBuiltin) (least : Nat) (xs : List Float) (x : Float) :
    Value :=
  if xs.length < least then .number (.of Number.nan) else p.computed nan (xs.map .of) x

/-- The arithmetic sequence that the arguments ask for. -/
def sequenceOf (nan : NanChoice) (args : List Value) : Except Complaint Value :=
  let count := number args 0
  if count.isNaN || count < 0 then .error .negativeCount
  else
    let n := Number.toIndex (Number.trunc count)
    if Sequences.longest < n then .error (.countTooLarge Sequences.longest)
    else .ok (.array (Sequences.arithmetic nan n (doubleOr args 1 1) (doubleOr args 2 1)))

/-- The value at a one-based place in an array, null outside of it. -/
def valueAt (vs : List Value) (n : Float) : Value :=
  if n.isNaN || n < 1 then .null else vs.getD (Number.toIndex n - 1) .null

/-- The part of an array that the arguments ask for. -/
def sliceOf (vs args : List Value) : Value :=
  let start := Sequences.place (numberOr args 1 0) vs.length
  let stop := Sequences.place (numberOr args 2 (Number.ofNat vs.length)) vs.length
  .array (Sequences.slice vs start stop)

/-- The percentile that the arguments ask for. -/
def percentileOf (nan : NanChoice) (args : List Value) : Except Complaint Value :=
  let p := number args 1
  let xs := numbers (args.take 1)
  if 0 ≤ p ∧ p ≤ 1 then
    .ok (if xs.isEmpty then .number (.of Number.nan)
      else percentile.computed nan (.of p :: (Statistics.sorted xs).map .of)
        (Statistics.percentile xs p))
  else .error .percentileOutOfRange

/-- The standard score that the arguments ask for, NaN where there is no
deviation. -/
def zscoreOf (nan : NanChoice) (args : List Value) : Value :=
  let xs := numbers [value args 1]
  match Statistics.zscore? (number args 0) xs with
  | some x => zscore.computed nan (double args 0 :: xs.map .of) x
  | none => .number (.of Number.nan)

/-- The answer to arguments. -/
def answer (nan : NanChoice) (p : PlainBuiltin) (args : List Value) : Except Complaint Value :=
  match p with
  | abs => .ok (.number (double args 0).abs)
  | sqrt => .ok (p.computed nan [double args 0] (number args 0).sqrt)
  | pow => .ok (p.computed nan [double args 0, double args 1]
      (Float.pow (number args 0) (number args 1)))
  | round => .ok (p.computed nan [double args 0, doubleOr args 1 0]
      (Statistics.round (number args 0) (numberOr args 1 0)))
  | floor => .ok (p.computed nan [double args 0] (Number.floor (number args 0)))
  | ceil => .ok (p.computed nan [double args 0] (Number.ceil (number args 0)))
  | mod => .ok (p.computed nan [double args 0, double args 1]
      (Number.rem (number args 0) (number args 1)))
  | sum => .ok (p.computed nan ((numbers args).map .of) (Number.sum (numbers args)))
  | count => .ok (.number (.of (Number.ofNat ((collected args).filter isFilled).length)))
  | min => .ok (.number (.of (Statistics.minimum (numbers args))))
  | max => .ok (.number (.of (Statistics.maximum (numbers args))))
  | choose => .ok (if (value args 0).isTruthy then value args 1 else value args 2)
  | all => .ok (.bool (args.all Value.isTruthy))
  | any => .ok (.bool (args.any Value.isTruthy))
  | negate => .ok (.bool (!(value args 0).isTruthy))
  | concat => .ok (.text (String.join (args.map Value.toText)))
  | length => .ok (.number (.of (Number.ofNat (lengthOf (value args 0)))))
  | upper => .ok (.text (String.ofList (Character.upperText (value args 0).toText.toList)))
  | lower => .ok (.text (String.ofList (Character.lowerText (value args 0).toText.toList)))
  | average => .ok (p.figure nan 1 (numbers args) (Statistics.mean (numbers args)))
  | median =>
    .ok (p.figure nan 1 (Statistics.sorted (numbers args)) (Statistics.median (numbers args)))
  | mode => .ok (((Statistics.mode (numbers args)).map fun x => .number (.of x)).getD .null)
  | variance => .ok (p.figure nan 2 (numbers args) (Statistics.variance (numbers args)))
  | stdev => .ok (p.computed nan ((numbers args).map .of) (Statistics.variance (numbers args)).sqrt)
  | percentile => percentileOf nan args
  | zscore => .ok (zscoreOf nan args)
  | sort => (array args 0 "SORT").map fun vs =>
      let sorted := Sequences.sort vs
      .array (if isDescending (value args 1) then sorted.reverse else sorted)
  | reverse => (array args 0 "REVERSE").map fun vs => .array vs.reverse
  | unique => (array args 0 "UNIQUE").map fun vs => .array (Sequences.distinct [] vs)
  | slice => (array args 0 "SLICE").map fun vs => sliceOf vs args
  | index => (array args 0 "INDEX").map fun vs => valueAt vs (number args 1)
  | contains => .ok (.bool (holds (value args 0) (value args 1)))
  | join => (array args 0 "JOIN").map fun vs =>
      .text (Sequences.join (textOr args 1 ",") (vs.map Value.itemText))
  | split =>
    .ok (.array ((Sequences.split (value args 0).toText (textOr args 1 ",")).map Value.text))
  | sequence => sequenceOf nan args
  | first => (array args 0 "FIRST").map fun vs => vs.headD .null
  | last => (array args 0 "LAST").map fun vs => vs.getLastD .null
  | flatten => .ok (.array (Sequences.flatten args))

end FormulaSheet.PlainBuiltin
