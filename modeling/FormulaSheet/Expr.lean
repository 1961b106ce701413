import FormulaSheet.Value.Literal

/-!
# Expression trees

The tree of a formula, and the trees that are plain data (`Expr.asLiteral?`).
-/

namespace FormulaSheet

/-- Operators before one operand. -/
inductive UnaryOp where
  | neg | plus | not
deriving DecidableEq

/-- Operators between two operands, both of which are always evaluated. -/
inductive BinaryOp where
  | add | sub | mul | div | rem
  | equal | notEqual | identical | notIdentical
  | less | lessEqual | greater | greaterEqual
deriving DecidableEq

/-- An expression. -/
inductive Expr where
  | literal (v : Value)
  | name (s : String)
  | array (items : List Expr)
  | object (fields : List (String × Expr))
  | unary (op : UnaryOp) (operand : Expr)
  | binary (op : BinaryOp) (left right : Expr)
  | and (left right : Expr)
  | or (left right : Expr)
  | conditional (condition yes no : Expr)
  | call (function : String) (arguments : List Expr)

instance : Inhabited Expr := ⟨.literal .null⟩

/-- Words that stand for a value and cannot name anything else. -/
def reservedWords : List String := ["true", "false", "null", "undefined", "NaN", "Infinity"]

/-- Whether a name is one of the reserved words. -/
def isReserved (s : String) : Bool := reservedWords.contains s

/-- The value of a reserved word. -/
def reservedValue? (s : String) : Option Value :=
  if s = "true" then some (.bool true)
  else if s = "false" then some (.bool false)
  else if s = "null" ∨ s = "undefined" then some .null
  else if s = "NaN" then some (.number (.of Number.nan))
  else if s = "Infinity" then some (.number (.of Number.infinity))
  else none

namespace Expr

mutual

/-- The value of a tree that is plain data: literals, minus signs before
number literals, and arrays and objects of such trees.  Of two fields with one
key the later stays. -/
def asLiteral? : Expr → Option Value
  | literal v => some v
  | unary .neg (literal (.number x)) => some (.number (-x))
  | array items => (literalItems? [] items).map .array
  | object fields => (literalFields? [] fields).map .object
  | _ => none

/-- The values of items that are plain data; `out` holds those of the items
before them in reverse. -/
def literalItems? (out : List Value) : List Expr → Option (List Value)
  | [] => some out.reverse
  | e :: es =>
    match asLiteral? e with
    | some v => literalItems? (v :: out) es
    | none => none

/-- The values of fields that are plain data, filed over `out`. -/
def literalFields? (out : Entries Value) : List (String × Expr) → Option (Entries Value)
  | [] => some out
  | (k, e) :: fs =>
    match asLiteral? e with
    | some v => literalFields? (out.insert k v) fs
    | none => none

end

end Expr

end FormulaSheet
