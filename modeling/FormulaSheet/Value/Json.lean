import FormulaSheet.Json
import FormulaSheet.Value

/-!
# Values as JSON

JSON has no NaN and no infinities.  Such a number is written as an object
whose one member `$number` names it, and read back from it; where the record
of that one member may be written as an array of its members, an array of one
such name is read as the number too.  Everything else is itself.
-/

namespace FormulaSheet.Value

/-- The name of a number that JSON cannot express. -/
def specialName? (x : Float) : Option String :=
  if x.isNaN then some "NaN"
  else if x == Number.infinity then some "Infinity"
  else if x == -Number.infinity then some "-Infinity"
  else none

/-- The number of a name. -/
def ofSpecialName? (s : String) : Option Float :=
  if s = "NaN" then some Number.nan
  else if s = "Infinity" then some Number.infinity
  else if s = "-Infinity" then some (-Number.infinity)
  else none

/-- A number as JSON. -/
def numberToJson (x : Float) : Json :=
  match specialName? x with
  | some s => .object [("$number", .text s)]
  | none => .number x

/-- Reads a number that is named, in an object or an array of one. -/
def special? : Json → Option Float
  | .object [(key, j)] => if key = "$number" then j.asChoice?.bind ofSpecialName? else none
  | .array [j] => j.asChoice?.bind ofSpecialName?
  | _ => none

mutual

/-- A value as JSON. -/
def toJson : Value → Json
  | null => .null
  | bool b => .bool b
  | number x => numberToJson x.float
  | text s => .text s
  | array items => .array (itemsToJson [] items)
  | object fields => .object (fieldsToJson [] fields)

/-- Items as JSON; `out` holds those before in reverse. -/
def itemsToJson (out : List Json) : List Value → List Json
  | [] => out.reverse
  | v :: vs => itemsToJson (toJson v :: out) vs

/-- Fields as JSON; `out` holds those before in reverse. -/
def fieldsToJson (out : List (String × Json)) : List (String × Value) → List (String × Json)
  | [] => out.reverse
  | (k, v) :: fs => fieldsToJson ((k, toJson v) :: out) fs

end

mutual

/-- Reads a value from JSON; every tree is one. -/
def ofJson : Json → Value
  | .null => .null
  | .bool b => .bool b
  | .integer n => .number (.of (Float.ofInt n))
  | .number x => .number (.of x)
  | .text s => .text s
  | .array items =>
    match special? (.array items) with
    | some x => .number (.of x)
    | none => .array (itemsOfJson [] items)
  | .object members =>
    match special? (.object members) with
    | some x => .number (.of x)
    | none => .object (fieldsOfJson [] members)

/-- Reads items from JSON; `out` holds those before in reverse. -/
def itemsOfJson (out : List Value) : List Json → List Value
  | [] => out.reverse
  | j :: js => itemsOfJson (ofJson j :: out) js

/-- Reads fields from JSON; `out` holds those before in reverse. -/
def fieldsOfJson (out : List (String × Value)) : List (String × Json) → List (String × Value)
  | [] => out.reverse
  | (k, j) :: ms => fieldsOfJson ((k, ofJson j) :: out) ms

end

/-- Reads values under names from JSON. -/
def tableOfJson? (j : Json) : Option (Table Value) := j.table? fun v => some (ofJson v)

/-- Values under names as JSON. -/
def tableToJson (values : Table Value) : Json :=
  .object (values.entries.map fun e => (e.1, e.2.toJson))

end FormulaSheet.Value
