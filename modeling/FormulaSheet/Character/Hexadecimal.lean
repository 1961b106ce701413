/-!
# Hexadecimal digits

Codes of characters are written with hexadecimal digits, small ones, and read
with either case.
-/

namespace FormulaSheet.Character

/-- The digit of `n` modulo sixteen. -/
def hexDigit (n : Nat) : Char := Nat.digitChar (n % 16)

/-- A code as four digits. -/
def fourHex (n : Nat) : List Char :=
  [hexDigit (n / 4096), hexDigit (n / 256), hexDigit (n / 16), hexDigit n]

/-- The value of a digit. -/
def hexValue? (c : Char) : Option Nat :=
  if c.isDigit then some (c.toNat - '0'.toNat)
  else if 'a' ≤ c ∧ c ≤ 'f' then some (c.toNat - 'a'.toNat + 10)
  else if 'A' ≤ c ∧ c ≤ 'F' then some (c.toNat - 'A'.toNat + 10)
  else none

/-- The value of digits, after digits of value `n`. -/
def hexNumber? : (n : Nat) → List Char → Option Nat
  | n, [] => some n
  | n, c :: cs =>
    match hexValue? c with
    | some d => hexNumber? (16 * n + d) cs
    | none => none

end FormulaSheet.Character
