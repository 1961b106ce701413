import FormulaSheet.Builtin.Arguments
import FormulaSheet.Builtin.Sort

/-!
# Arrays and texts

What built-in functions do to arrays and texts.  Sorting is stable: numbers
come before texts and texts before everything else, which keeps its order;
numbers are in their total order, in which NaNs have places by their bits.
Splitting cuts at the leftmost separators that do not overlap, so joining
gives the text back.
-/

namespace FormulaSheet.Sequences

/-- The group that sorting puts a value in. -/
def rank : Value → Nat
  | .number _ => 0
  | .text _ => 1
  | _ => 2

/-- How two values compare in sorting. -/
def order : Value → Value → Ordering
  | .number x, .number y => compare x.place y.place
  | .text s, .text t => compare s t
  | v, w => compare (rank v) (rank w)

/-- The values in order; values that compare equal stay in theirs. -/
def sort : List Value → List Value := sortBy fun v w => (order v w).isLE

/-- The values that equal none before them; `seen` holds those in reverse. -/
def distinct (seen : List Value) : List Value → List Value
  | [] => seen.reverse
  | v :: vs => if seen.any (fun s => s.equal v) then distinct seen vs else distinct (v :: seen) vs

/-- A place counted from the front, or from the end if negative, brought into
the range from 0 to `size`. -/
def place (n : Float) (size : Nat) : Nat :=
  if n.isNaN then 0
  else
    let whole := Number.trunc n
    if whole < 0 then Number.toIndex (Number.greater (Number.ofNat size + whole) 0)
    else Number.toIndex (Number.lesser whole (Number.ofNat size))

/-- The values from one place up to but excluding another. -/
def slice (vs : List Value) (start stop : Nat) : List Value := (vs.take stop).drop start

/-- The most items that an arithmetic sequence may have. -/
def longest : Nat := 100000

/-- `count` numbers, `step` apart. -/
def arithmetic (nan : NanChoice) (count : Nat) (start step : Double) : List Value :=
  (List.range count).map fun i =>
    .number (nan.settle "SEQUENCE" [start, step, .of (Number.ofNat i)]
      (start.float + step.float * Number.ofNat i))

mutual

/-- The values with arrays replaced by their items at every depth, reversed,
before `out`. -/
def flattenOnto (out : List Value) : Value → List Value
  | .array vs => flattenItemsOnto out vs
  | .null => .null :: out
  | .bool b => .bool b :: out
  | .number x => .number x :: out
  | .text s => .text s :: out
  | .object fs => .object fs :: out

/-- Every item flattened, reversed, before `out`. -/
def flattenItemsOnto (out : List Value) : List Value → List Value
  | [] => out
  | v :: vs => flattenItemsOnto (flattenOnto out v) vs

end

/-- The values with arrays replaced by their items at every depth. -/
def flatten (vs : List Value) : List Value := (flattenItemsOnto [] vs).reverse

/-- Whether `needle` occurs in a text. -/
def occursIn (needle : List Char) : List Char → Bool
  | [] => needle.isEmpty
  | c :: cs => needle.isPrefixOf (c :: cs) || occursIn needle cs

/-- Cuts a text at a separator that is not empty.  `skip` characters of a
separator are still to be passed over, `piece` is the piece so far and `out`
the pieces before it, both in reverse. -/
def cut (separator : List Char) : (skip : Nat) → (piece : List Char) →
    (out : List (List Char)) → List Char → List (List Char)
  | _, piece, out, [] => (piece.reverse :: out).reverse
  | skip + 1, piece, out, _ :: cs => cut separator skip piece out cs
  | 0, piece, out, c :: cs =>
    if separator.isPrefixOf (c :: cs) then
      cut separator (separator.length - 1) [] (piece.reverse :: out) cs
    else cut separator 0 (c :: piece) out cs

/-- The pieces of a text between separators; with an empty separator, its
characters. -/
def split (text separator : String) : List String :=
  let cs := text.toList
  if separator.isEmpty then cs.map String.singleton
  else (cut separator.toList 0 [] [] cs).map String.ofList

/-- Texts with a separator between them. -/
def join (separator : String) : List String → String
  | [] => ""
  | s :: ss => ss.foldl (fun out t => out ++ separator ++ t) s

end FormulaSheet.Sequences
