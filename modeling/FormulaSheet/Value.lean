import FormulaSheet.Double
import FormulaSheet.Number.Text
import FormulaSheet.Table

/-!
# Values

What a formula can produce: nothing, a truth value, a number, text, an array
or an object whose fields are in the order of their keys.

Values are coerced loosely.  `Value.isTruthy` says which count as true,
`Value.toNumber` takes any value for a number (`Value.toDouble` for its bits),
`Value.asNumber?` only those that aggregates count, and `Value.toText` takes
any value for text.  Two
equalities are kept apart: `Value.equal` compares structure, `Value.looseEqual`
coerces where the kinds differ.  A NaN equals nothing, and the two zeros are
equal.
-/

namespace FormulaSheet

/-- A value of a formula. -/
inductive Value where
  | null
  | bool (b : Bool)
  | number (x : Double)
  | text (s : String)
  | array (items : List Value)
  | object (fields : List (String × Value))

instance : Inhabited Value := ⟨.null⟩

namespace Value

/-- The kind of a value, by the name that answers use. -/
def kind : Value → String
  | null => "null"
  | bool _ => "boolean"
  | number _ => "number"
  | text _ => "string"
  | array _ => "array"
  | object _ => "object"

/-- Whether the value is null. -/
def isNull : Value → Bool
  | null => true
  | _ => false

/-- Null, false, zero, NaN and empty text do not count as true; everything
else does, the empty array and the empty object among it. -/
def isTruthy : Value → Bool
  | null => false
  | bool b => b
  | number x => !(x.float == 0 || x.isNaN)
  | text s => !s.isEmpty
  | array _ => true
  | object _ => true

/-- The bits of the number that a value is taken for.  An array of one item is
taken for that item. -/
def toDouble : Value → Double
  | null => 0
  | bool b => if b then 1 else 0
  | number x => x
  | text s => .of ((Number.ofText? s.toList).getD Number.nan)
  | array [] => 0
  | array [v] => v.toDouble
  | array _ => .of Number.nan
  | object _ => .of Number.nan

/-- The number that a value is taken for. -/
def toNumber (v : Value) : Float := v.toDouble.float

/-- The number that aggregates count a value as: numbers that are one, and
text that spells one. -/
def asNumber? : Value → Option Float
  | number x => if x.isNaN then none else some x.float
  | text s =>
    if (Character.trim s.toList).isEmpty then none else Number.ofText? s.toList
  | _ => none

/-- The text of a text value. -/
def asText? : Value → Option String
  | text s => some s
  | _ => none

/-- The items of an array. -/
def asArray? : Value → Option (List Value)
  | array items => some items
  | _ => none

/-- A truth value by its name. -/
def boolText (b : Bool) : String := if b then "true" else "false"

mutual

/-- Structural equality, numbers compared as numbers. -/
def equal : Value → Value → Bool
  | null, null => true
  | bool a, bool b => a == b
  | number x, number y => x.float == y.float
  | text s, text t => s == t
  | array vs, array ws => equalItems vs ws
  | object fs, object gs => equalFields fs gs
  | _, _ => false

/-- Equality of arrays, item by item. -/
def equalItems : List Value → List Value → Bool
  | [], [] => true
  | v :: vs, w :: ws => if equal v w then equalItems vs ws else false
  | _, _ => false

/-- Equality of objects, field by field. -/
def equalFields : List (String × Value) → List (String × Value) → Bool
  | [], [] => true
  | (k, v) :: fs, (l, w) :: gs =>
    if k == l then if equal v w then equalFields fs gs else false else false
  | _, _ => false

end

/-- Loose equality: two texts compare as texts, arrays and objects by
structure, null equals only null, and everything else compares by number. -/
def looseEqual : Value → Value → Bool
  | null, null => true
  | null, _ => false
  | _, null => false
  | text s, text t => s == t
  | array vs, w => equal (array vs) w
  | v, array ws => equal v (array ws)
  | object fs, w => equal (object fs) w
  | v, object gs => equal v (object gs)
  | v, w => v.toNumber == w.toNumber

/-- How two numbers compare; NaN compares with nothing. -/
def compareNumbers (x y : Float) : Option Ordering :=
  if x < y then some .lt else if y < x then some .gt else if x == y then some .eq else none

/-- How two values compare: two texts in the order of their characters,
everything else by number. -/
def compare? : Value → Value → Option Ordering
  | text s, text t => some (compare s t)
  | v, w => compareNumbers v.toNumber w.toNumber

end Value

end FormulaSheet
