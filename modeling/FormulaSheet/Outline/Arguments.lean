import FormulaSheet.Outline

/-!
# Splitting arguments

The text between the parentheses of a call is cut at the commas that are in no
brackets and no quotes.  Blank text holds no arguments.
-/

namespace FormulaSheet

/-- Cuts at top-level commas.  `depth` counts the brackets that are open, less
those that closed too many; `segment` is the argument being read and `out` the
arguments before it, both in reverse. -/
def splitFrom (depth : Int) (segment : List Char) (out : List (List Char)) :
    List Item → List (List Char)
  | [] => (Character.trim segment.reverse :: out).reverse
  | i :: items =>
    match i with
    | .mark c =>
      if c = ',' ∧ depth = 0 then
        splitFrom depth [] (Character.trim segment.reverse :: out) items
      else if c = '(' ∨ c = '[' ∨ c = '\x7b' then splitFrom (depth + 1) (c :: segment) out items
      else if c = ')' ∨ c = ']' ∨ c = '\x7d' then splitFrom (depth - 1) (c :: segment) out items
      else splitFrom depth (c :: segment) out items
    | i => splitFrom depth (i.text.reverseAux segment) out items

/-- The arguments in a text, without the blanks around them. -/
def splitArguments (cs : List Char) : List (List Char) :=
  if (Character.trim cs).isEmpty then [] else splitFrom 0 [] [] (Item.ofText cs)

end FormulaSheet
