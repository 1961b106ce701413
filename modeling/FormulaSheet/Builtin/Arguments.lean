import FormulaSheet.Error
import FormulaSheet.Value.Literal

/-!
# Arguments

How built-in functions look at their arguments.  A missing argument counts as
null.  Aggregates take an array or the values themselves, and arrays among
those give up their items.
-/

namespace FormulaSheet.Arguments

/-- The argument at a place. -/
def value (args : List Value) (n : Nat) : Value := args.getD n .null

/-- The bits of the argument at a place, taken for a number. -/
def double (args : List Value) (n : Nat) : Double := (value args n).toDouble

/-- The argument at a place, taken for a number. -/
def number (args : List Value) (n : Nat) : Float := (value args n).toNumber

/-- The bits of the argument at a place, taken for a number, unless it is
null. -/
def doubleOr (args : List Value) (n : Nat) (default : Double) : Double :=
  match value args n with
  | .null => default
  | v => v.toDouble

/-- The argument at a place, taken for a number, unless it is null. -/
def numberOr (args : List Value) (n : Nat) (default : Float) : Float :=
  (doubleOr args n (.of default)).float

/-- The argument at a place, taken for text, unless it is null. -/
def textOr (args : List Value) (n : Nat) (default : String) : String :=
  match value args n with
  | .null => default
  | v => v.toText

/-- The items of the argument at a place, which must be an array. -/
def array (args : List Value) (n : Nat) (asker : String) : Except Complaint (List Value) :=
  match value args n with
  | .array items => .ok items
  | _ => .error (.notAnArray asker)

/-- A value as aggregates see it: the items of an array, or itself. -/
def items : Value → List Value
  | .array vs => vs
  | v => [v]

/-- The values that an aggregate is about. -/
def collected (args : List Value) : List Value := args.flatMap items

/-- The numbers that an aggregate is about. -/
def numbers (args : List Value) : List Float := (collected args).filterMap Value.asNumber?

end FormulaSheet.Arguments
