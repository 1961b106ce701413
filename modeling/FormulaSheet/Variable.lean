import FormulaSheet.Rules

/-!
# Variables

A variable has an id that it is known by for good and a name that formulas
refer to it by.  One with a formula is derived: its value is computed.  Any
other is a source: its value is set, if the type accepts it and no rule is
broken.
-/

namespace FormulaSheet

/-- The declared type of a variable. -/
inductive VariableType where
  | number | text | boolean
  /-- A date, in milliseconds or as text. -/
  | date
  /-- A time, in milliseconds or as text. -/
  | time
  | array | object
  /-- Milliseconds between the onset of a stimulus and the response. -/
  | reactionTime
  /-- A time in milliseconds. -/
  | stimulusOnset
deriving DecidableEq

namespace VariableType

/-- Every type. -/
def all : List VariableType :=
  [number, text, boolean, date, time, array, object, reactionTime, stimulusOnset]

/-- The name of a type. -/
def name : VariableType → String
  | number => "number"
  | text => "string"
  | boolean => "boolean"
  | date => "date"
  | time => "time"
  | array => "array"
  | object => "object"
  | reactionTime => "reaction_time"
  | stimulusOnset => "stimulus_onset"

/-- The type of a name. -/
def ofName? (s : String) : Option VariableType := all.find? fun t => t.name == s

/-- Whether a variable of this type may hold a value; null it always may. -/
def accepts : VariableType → Value → Bool
  | _, .null => true
  | number, .number _ => true
  | reactionTime, .number _ => true
  | stimulusOnset, .number _ => true
  | text, .text _ => true
  | boolean, .bool _ => true
  | date, .number _ => true
  | date, .text _ => true
  | time, .number _ => true
  | time, .text _ => true
  | array, .array _ => true
  | object, .object _ => true
  | _, _ => false

theorem ofName?_name (t : VariableType) : ofName? t.name = some t := by
  cases t <;> decide

end VariableType

/-- How long a variable is meant to last.  It is recorded and has no
effect. -/
inductive Lifetime where
  | permanent | confined | temporary
deriving DecidableEq

namespace Lifetime

/-- Every lifetime. -/
def all : List Lifetime := [permanent, confined, temporary]

/-- The name of a lifetime. -/
def name : Lifetime → String
  | permanent => "global"
  | confined => "local"
  | temporary => "temporary"

/-- The lifetime of a name. -/
def ofName? (s : String) : Option Lifetime := all.find? fun l => l.name == s

theorem ofName?_name (l : Lifetime) : ofName? l.name = some l := by
  cases l <;> decide

end Lifetime

/-- The definition of a variable. -/
structure Variable where
  id : String
  name : String
  type : VariableType
  lifetime : Lifetime
  default : Option Value
  formula : Option String
  rules : Option Rules
  description : Option String

namespace Variable

/-- A variable without anything optional. -/
def create (id name : String) (type : VariableType) : Variable where
  id := id
  name := name
  type := type
  lifetime := .permanent
  default := none
  formula := none
  rules := none
  description := none

/-- Whether the value is computed. -/
def isDerived (v : Variable) : Bool := v.formula.isSome

/-- The value that a source begins with. -/
def initial? (v : Variable) : Option Value := if v.isDerived then none else v.default

/-- The names of what is in a definition. -/
def keys : List String :=
  ["id", "name", "type", "scope", "defaultValue", "formula", "validation", "description"]

/-- Reads a definition from JSON. -/
def ofJson? : Json → Option Variable :=
  Json.record? keys fun j => do
    return {
      id := ← j.required? Json.asText? "id"
      name := ← j.required? Json.asText? "name"
      type := ← j.required? (fun t => t.asChoice?.bind VariableType.ofName?) "type"
      lifetime := ← j.defaulted? (fun l => l.asChoice?.bind Lifetime.ofName?) .permanent "scope"
      default := ← j.defaulted? (Json.optional? fun v => some (.ofJson v)) none "defaultValue"
      formula := ← j.defaulted? (Json.optional? Json.asText?) none "formula"
      rules := ← j.defaulted? (Json.optional? Rules.ofJson?) none "validation"
      description := ← j.defaulted? (Json.optional? Json.asText?) none "description" }

/-- A member, if there is something to write. -/
def optionalMember {α : Type} (key : String) (write : α → Json) : Option α → List (String × Json)
  | some a => [(key, write a)]
  | none => []

/-- A definition as JSON; what is missing is left out. -/
def toJson (v : Variable) : Json :=
  .ofMembers (
    [("id", .text v.id), ("name", .text v.name), ("type", .text v.type.name),
      ("scope", .text v.lifetime.name)] ++
    optionalMember "defaultValue" Value.toJson v.default ++
    optionalMember "formula" .text v.formula ++
    optionalMember "validation" Rules.toJson v.rules ++
    optionalMember "description" .text v.description)

end Variable

end FormulaSheet
