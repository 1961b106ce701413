import FormulaSheet.Outline

/-!
# Substituting variables

References of an outline are replaced by the literals of their values.  The
values come from a look-up that may have effects, such as reading other
variables; it is asked once for each reference, from left to right, and a
reference without a value stays as it is.
-/

namespace FormulaSheet.Outline

/-- Substitutes in an outline; `out` is the text so far in reverse, `names`
the names substituted so far in reverse. -/
def substituteFrom {m : Type → Type} [Monad m] (lookup : String → m (Option Value))
    (out : List Char) (names : List String) : Outline → m (List Char × List String)
  | [] => pure (out.reverse, names.reverse)
  | .reference w :: ps => do
    match ← lookup (String.ofList w) with
    | some v => substituteFrom lookup (v.splice.reverseAux out) (addName names (String.ofList w)) ps
    | none => substituteFrom lookup (w.reverseAux out) names ps
  | .callee w :: ps => substituteFrom lookup (w.reverseAux out) names ps
  | .plain i :: ps => substituteFrom lookup (i.text.reverseAux out) names ps

/-- The text with the references that have values replaced by their literals,
and the names of those, in the order in which they first occur. -/
def substitute {m : Type → Type} [Monad m] (lookup : String → m (Option Value)) (o : Outline) :
    m (List Char × List String) :=
  substituteFrom lookup [] [] o

/-- Substitutes values from a table. -/
def substituteTable (bindings : Table Value) (o : Outline) : List Char × List String :=
  Id.run (o.substitute fun name => pure (bindings.get? name))

end FormulaSheet.Outline
