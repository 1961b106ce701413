import FormulaSheet.Host
import FormulaSheet.Value.Json
import FormulaSheet.Value.Literal

/-!
# Rules for values

What a variable demands of the values that it is given, besides their type.
Null passes every rule but `required`.  `Rules.check` reports the first rule
that a value breaks, in this order: it is missing; a number is out of range; a
text or an array is too short or too long; a text does not match the pattern;
a value is not among those allowed.
-/

namespace FormulaSheet

/-- Optional demands on a value. -/
structure Rules where
  /-- Refuses null and empty text. -/
  required : Bool
  /-- The bounds of numbers, themselves within bounds. -/
  min : Option Float
  max : Option Float
  /-- The bounds of the number of characters of a text or items of an
  array. -/
  minLength : Option Nat
  maxLength : Option Nat
  pattern : Option String
  allowed : Option (List Value)

/-- How a value breaks rules. -/
inductive Violation where
  | missing
  | below (min : Float)
  | above (max : Float)
  | tooShort (minLength : Nat)
  | tooLong (maxLength : Nat)
  /-- The pattern itself is none, for a cause. -/
  | invalidPattern (pattern cause : String)
  | mismatch (pattern : String)
  | notAllowed (allowed : List Value)

/-- The violation in words. -/
def Violation.message : Violation → String
  | missing => "a value is required"
  | below min => "must be at least " ++ String.ofList (Number.text min)
  | above max => "must be at most " ++ String.ofList (Number.text max)
  | tooShort n => "length must be at least " ++ toString n
  | tooLong n => "length must be at most " ++ toString n
  | invalidPattern p cause => "invalid pattern " ++ p ++ ": " ++ cause
  | mismatch p => "must match pattern " ++ p
  | notAllowed vs =>
    "must be one of " ++ String.intercalate ", " (vs.map fun v => String.ofList v.literal)

namespace Rules

/-- The rules that refuse nothing. -/
def unrestricted : Rules := ⟨false, none, none, none, none, none, none⟩

/-- Whether a value counts as missing. -/
def isMissing : Value → Bool
  | .null => true
  | .text s => s.isEmpty
  | _ => false

/-- What is wrong with a number. -/
def checkNumber (r : Rules) : Value → Option Violation
  | .number x =>
    match r.min.filter (x.float < ·) with
    | some min => some (.below min)
    | none => (r.max.filter (· < x.float)).map .above
  | _ => none

/-- The length of a text or an array. -/
def lengthOf? : Value → Option Nat
  | .text s => some s.length
  | .array vs => some vs.length
  | _ => none

/-- What is wrong with the length of a value. -/
def checkLength (r : Rules) (v : Value) : Option Violation :=
  match lengthOf? v with
  | some n =>
    match r.minLength.filter (n < ·) with
    | some least => some (.tooShort least)
    | none => (r.maxLength.filter (· < n)).map .tooLong
  | none => none

/-- What is wrong with a text.  The pattern is compiled each time. -/
def checkPattern (regex : Regex) (r : Rules) (v : Value) : Option Violation :=
  match r.pattern, v with
  | some p, .text s =>
    match regex p with
    | .error cause => some (.invalidPattern p cause)
    | .ok isMatch => if isMatch s then none else some (.mismatch p)
  | _, _ => none

/-- What is wrong with the choice of a value. -/
def checkAllowed (r : Rules) (v : Value) : Option Violation :=
  match r.allowed with
  | some vs => if vs.any fun w => w.equal v then none else some (.notAllowed vs)
  | none => none

/-- The first rule that a value breaks. -/
def check (regex : Regex) (r : Rules) (v : Value) : Option Violation :=
  if r.required && isMissing v then some .missing
  else if v.isNull then none
  else
    (r.checkNumber v).or ((r.checkLength v).or ((r.checkPattern regex v).or (r.checkAllowed v)))

/-- The names of rules. -/
def keys : List String :=
  ["required", "min", "max", "minLength", "maxLength", "pattern", "allowedValues"]

/-- Reads rules from JSON; everything in them may be missing. -/
def ofJson? : Json → Option Rules :=
  Json.record? keys fun j => do
    return {
      required := ← j.defaulted? Json.asBool? false "required"
      min := ← j.defaulted? (Json.optional? Json.asFloat?) none "min"
      max := ← j.defaulted? (Json.optional? Json.asFloat?) none "max"
      minLength := ← j.defaulted? (Json.optional? Json.asNat?) none "minLength"
      maxLength := ← j.defaulted? (Json.optional? Json.asNat?) none "maxLength"
      pattern := ← j.defaulted? (Json.optional? Json.asText?) none "pattern"
      allowed := ← j.defaulted?
        (Json.optional? (Json.list? fun v => some (.ofJson v))) none "allowedValues" }

/-- Something that may be missing as JSON. -/
def optionToJson {α : Type} (write : α → Json) : Option α → Json
  | some a => write a
  | none => .null

/-- A number as JSON, null where JSON has none. -/
def boundToJson (x : Float) : Json := if x.isFinite then .number x else .null

/-- Rules as JSON. -/
def toJson (r : Rules) : Json :=
  .ofMembers [("required", .bool r.required), ("min", optionToJson boundToJson r.min),
    ("max", optionToJson boundToJson r.max),
    ("minLength", optionToJson (fun n => .integer n) r.minLength),
    ("maxLength", optionToJson (fun n => .integer n) r.maxLength),
    ("pattern", optionToJson .text r.pattern),
    ("allowedValues", optionToJson (fun vs => .array (vs.map Value.toJson)) r.allowed)]

end Rules

end FormulaSheet
