import FormulaSheet.Expr

/-!
# Operators

What the operators make of values.  Arithmetic takes its operands for numbers;
`+` joins texts as soon as one operand is text, an array or an object.  The
double equality coerces, the triple one does not.
-/

namespace FormulaSheet

/-- Whether `+` joins the value as text. -/
def Value.isTextual : Value → Bool
  | .text _ => true
  | .array _ => true
  | .object _ => true
  | _ => false

/-- The value of a sign operator before an operand. -/
def UnaryOp.apply : UnaryOp → Value → Value
  | neg, v => .number (-v.toDouble)
  | plus, v => .number v.toDouble
  | not, v => .bool (!v.isTruthy)

/-- The sign of the operator in formulas. -/
def UnaryOp.sign : UnaryOp → String
  | neg => "-"
  | plus => "+"
  | not => "!"

/-- The sign of the operator in formulas. -/
def BinaryOp.sign : BinaryOp → String
  | add => "+"
  | sub => "-"
  | mul => "*"
  | div => "/"
  | rem => "%"
  | equal => "=="
  | notEqual => "!="
  | identical => "==="
  | notIdentical => "!=="
  | less => "<"
  | lessEqual => "<="
  | greater => ">"
  | greaterEqual => ">="

/-- The value of an operator between two operands. -/
def BinaryOp.apply (nan : NanChoice) (op : BinaryOp) (v w : Value) : Value :=
  let arithmetic (result : Float) : Value :=
    .number (nan.settle op.sign [v.toDouble, w.toDouble] result)
  match op with
  | add =>
    if v.isTextual || w.isTextual then .text (v.toText ++ w.toText)
    else arithmetic (v.toNumber + w.toNumber)
  | sub => arithmetic (v.toNumber - w.toNumber)
  | mul => arithmetic (v.toNumber * w.toNumber)
  | div => arithmetic (v.toNumber / w.toNumber)
  | rem => arithmetic (Number.rem v.toNumber w.toNumber)
  | equal => .bool (v.looseEqual w)
  | notEqual => .bool (!v.looseEqual w)
  | identical => .bool (v.equal w)
  | notIdentical => .bool (!v.equal w)
  | less => .bool (v.compare? w == some .lt)
  | lessEqual => .bool ((v.compare? w).any (·.isLE))
  | greater => .bool (v.compare? w == some .gt)
  | greaterEqual => .bool ((v.compare? w).any (·.isGE))

/-- Every operator between two operands. -/
def BinaryOp.all : List BinaryOp :=
  [add, sub, mul, div, rem, equal, notEqual, identical, notIdentical, less, lessEqual, greater,
   greaterEqual]

end FormulaSheet
