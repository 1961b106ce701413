/-!
# Ranges of characters

A property of characters is a list of ranges of their codes.
-/

namespace FormulaSheet.Character

/-- Ranges of character codes, each with its first and its last code. -/
abbrev Ranges := List (Nat × Nat)

/-- Whether a code lies in one of the ranges. -/
def Ranges.contains (rs : Ranges) (n : Nat) : Bool :=
  rs.any fun r => r.1 ≤ n && n ≤ r.2

end FormulaSheet.Character
