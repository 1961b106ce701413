import FormulaSheet.Character.Ranges

/-!
# Blank and control characters

Blanks separate the tokens of a formula and are trimmed from the ends of
texts; they are the characters with the White_Space property.  Control
characters are written by their code in literals.
-/

namespace FormulaSheet.Character

/-- The blank characters beyond ASCII. -/
def blankRanges : Ranges :=
  [(133, 133), (160, 160), (5760, 5760), (8192, 8202), (8232, 8233), (8239, 8239), (8287, 8287),
   (12288, 12288)]

/-- Whether `c` is blank. -/
def isBlank (c : Char) : Bool :=
  if c.toNat < 128 then c == ' ' || (9 ≤ c.toNat && c.toNat ≤ 13)
  else blankRanges.contains c.toNat

/-- Whether `c` is a control character. -/
def isControl (c : Char) : Bool := c.toNat < 32 || (127 ≤ c.toNat && c.toNat < 160)

/-- Drops the blanks at the front. -/
def trimStart (cs : List Char) : List Char := cs.dropWhile isBlank

/-- Drops the characters with `p` at the end. -/
def dropEndWhile (p : Char → Bool) (cs : List Char) : List Char :=
  (cs.reverse.dropWhile p).reverse

/-- Drops the blanks at the end. -/
def trimEnd (cs : List Char) : List Char := dropEndWhile isBlank cs

/-- Drops the blanks at both ends. -/
def trim (cs : List Char) : List Char := trimEnd (trimStart cs)

end FormulaSheet.Character
