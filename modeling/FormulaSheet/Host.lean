import FormulaSheet.Double

/-!
# The host

What formulas rely on and do not make themselves: a clock, random numbers
where there is no seed, the NaNs of the machine, and regular expressions.
-/

namespace FormulaSheet

/-- Compiles a pattern to the test whether a text has a match, or says what is
wrong with the pattern. -/
abbrev Regex := String → Except String (String → Bool)

/-- What the machine and its libraries provide. -/
structure Host where
  /-- The time in milliseconds since 1970. -/
  clock : Float
  /-- Numbers from 0 up to but excluding 1, by the number of draws before. -/
  draw : Nat → Float
  nan : NanChoice
  regex : Regex

/-- Patterns of letters and digits, which match themselves. -/
def Regex.words : Regex := fun pattern =>
  if pattern.toList.all Char.isAlphanum then
    .ok fun text => (List.range (text.length + 1)).any fun n =>
      pattern.toList.isPrefixOf (text.toList.drop n)
  else .error "not a word"

/-- A host where time stands still. -/
def Host.still : Host where
  clock := 0
  draw _ := 0
  nan _ _ := ⟨.of Number.nan, by decide +kernel⟩
  regex := .words

end FormulaSheet
