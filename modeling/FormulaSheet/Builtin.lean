import FormulaSheet.Function

/-!
# The built-in functions

The functions that every registry starts with, and their profiles.  Those of
`PlainBuiltin` answer from their arguments alone; the others use the clock,
draw random numbers or call another function by its name.
-/

namespace FormulaSheet

/-- Built-in functions whose answer depends on their arguments alone. -/
inductive PlainBuiltin where
  | abs | sqrt | pow | round | floor | ceil | mod
  | sum | count | min | max
  | choose | all | any | negate
  | concat | length | upper | lower
  | average | median | mode | variance | stdev | percentile | zscore
  | sort | reverse | unique | slice | index | contains | join | split | sequence
  | first | last | flatten
deriving DecidableEq

/-- The built-in functions. -/
inductive Builtin where
  | plain (p : PlainBuiltin)
  | now
  | timeSince
  | random
  | randomInteger
  | avg
deriving DecidableEq

/-- A number as the value of a missing argument. -/
def numberDefault (n : Nat) : Option Value := some (.number (.of (Number.ofNat n)))

open Parameter (required optional)

/-- The profile of a plain built-in function. -/
def PlainBuiltin.profile : PlainBuiltin → Profile
  | abs => ⟨"ABS", .math, "Absolute value", [required "value" .number], .number⟩
  | sqrt => ⟨"SQRT", .math, "Square root", [required "value" .number], .number⟩
  | pow => ⟨"POW", .math, "Base raised to an exponent",
      [required "base" .number, required "exponent" .number], .number⟩
  | round => ⟨"ROUND", .math, "Round to a number of decimal places",
      [required "value" .number, optional "decimals" .number (numberDefault 0)], .number⟩
  | floor => ⟨"FLOOR", .math, "Round down to an integer", [required "value" .number], .number⟩
  | ceil => ⟨"CEIL", .math, "Round up to an integer", [required "value" .number], .number⟩
  | mod => ⟨"MOD", .math, "Remainder of a division",
      [required "dividend" .number, required "divisor" .number], .number⟩
  | sum => ⟨"SUM", .array, "Sum of numeric values", [required "values" .array], .number⟩
  | count => ⟨"COUNT", .array, "Count of non-empty values", [required "values" .array], .number⟩
  | min => ⟨"MIN", .array, "Smallest numeric value", [required "values" .array], .number⟩
  | max => ⟨"MAX", .array, "Largest numeric value", [required "values" .array], .number⟩
  | choose => ⟨"IF", .logical, "Choose a value by condition",
      [required "condition" .boolean, required "trueValue" .any, optional "falseValue" .any none],
      .any⟩
  | all => ⟨"AND", .logical, "True if every argument is truthy", [required "values" .any], .boolean⟩
  | any => ⟨"OR", .logical, "True if any argument is truthy", [required "values" .any], .boolean⟩
  | negate => ⟨"NOT", .logical, "Logical negation", [required "value" .any], .boolean⟩
  | concat => ⟨"CONCAT", .text, "Join arguments as text", [required "values" .any], .text⟩
  | length => ⟨"LENGTH", .text, "Length of text or an array", [required "value" .any], .number⟩
  | upper => ⟨"UPPER", .text, "Uppercase text", [required "text" .text], .text⟩
  | lower => ⟨"LOWER", .text, "Lowercase text", [required "text" .text], .text⟩
  | average => ⟨"AVERAGE", .statistical, "Arithmetic mean", [required "values" .array], .number⟩
  | median => ⟨"MEDIAN", .statistical, "Middle value", [required "values" .array], .number⟩
  | mode => ⟨"MODE", .statistical, "Most frequent value", [required "values" .array], .number⟩
  | variance => ⟨"VARIANCE", .statistical, "Sample variance", [required "values" .array], .number⟩
  | stdev => ⟨"STDEV", .statistical, "Sample standard deviation", [required "values" .array],
      .number⟩
  | percentile => ⟨"PERCENTILE", .statistical, "Value at a percentile between 0 and 1",
      [required "values" .array, required "percentile" .number], .number⟩
  | zscore => ⟨"ZSCORE", .statistical, "Standard score of a value within a sample",
      [required "value" .number, required "values" .array], .number⟩
  | sort => ⟨"SORT", .array, "Sorted copy of an array",
      [required "values" .array, optional "direction" .text (some (.text "asc"))], .array⟩
  | reverse => ⟨"REVERSE", .array, "Reversed copy of an array", [required "values" .array], .array⟩
  | unique => ⟨"UNIQUE", .array, "Distinct values in first-seen order",
      [required "values" .array], .array⟩
  | slice => ⟨"SLICE", .array, "Portion of an array",
      [required "values" .array, required "start" .number, optional "end" .number none], .array⟩
  | index => ⟨"INDEX", .array, "Element at a one-based position",
      [required "values" .array, required "position" .number], .any⟩
  | contains => ⟨"CONTAINS", .array, "Whether an array or text contains a value",
      [required "haystack" .any, required "needle" .any], .boolean⟩
  | join => ⟨"JOIN", .text, "Join array elements with a separator",
      [required "values" .array, optional "separator" .text (some (.text ","))], .text⟩
  | split => ⟨"SPLIT", .text, "Split text on a separator",
      [required "text" .text, optional "separator" .text (some (.text ","))], .array⟩
  | sequence => ⟨"SEQUENCE", .array, "Arithmetic sequence",
      [required "count" .number, optional "start" .number (numberDefault 1),
       optional "step" .number (numberDefault 1)], .array⟩
  | first => ⟨"FIRST", .array, "First element", [required "values" .array], .any⟩
  | last => ⟨"LAST", .array, "Last element", [required "values" .array], .any⟩
  | flatten => ⟨"FLATTEN", .array, "Flatten nested arrays", [required "values" .array], .array⟩

/-- The profile of a built-in function. -/
def Builtin.profile : Builtin → Profile
  | plain p => p.profile
  | now => ⟨"NOW", .date, "Current time in milliseconds since the Unix epoch", [], .date⟩
  | timeSince => ⟨"TIME_SINCE", .date, "Milliseconds elapsed since a timestamp",
      [required "timestamp" .date], .number⟩
  | random => ⟨"RANDOM", .math, "Random number in [0, 1)", [], .number⟩
  | randomInteger => ⟨"RANDINT", .math, "Random integer between min and max inclusive",
      [required "min" .number, required "max" .number], .number⟩
  | avg => ⟨"AVG", .statistical, "Alias of AVERAGE", [required "values" .array], .number⟩

/-- Every plain built-in function. -/
def PlainBuiltin.members : List PlainBuiltin :=
  [abs, sqrt, pow, round, floor, ceil, mod, sum, count, min, max, choose, all, any, negate,
   concat, length, upper, lower, average, median, mode, variance, stdev, percentile, zscore,
   sort, reverse, unique, slice, index, contains, join, split, sequence, first, last, flatten]

/-- Every built-in function. -/
def Builtin.members : List Builtin :=
  PlainBuiltin.members.map plain ++ [now, timeSince, random, randomInteger, avg]

end FormulaSheet
