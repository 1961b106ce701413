import FormulaSheet.Double
import FormulaSheet.Number.Text
import FormulaSheet.Table

/-!
# JSON trees

The data that definitions, snapshots and requests are exchanged as.  An
integer is kept apart from a number with a point or an exponent, because
counts and seeds must be integers.  The members of an object are in the order
of their keys, each key once.

Trees are written as text and read from it by a library (`JsonText`), of which
nothing is known but what is said to be kept.
-/

namespace FormulaSheet

/-- A JSON tree. -/
inductive Json where
  | null
  | bool (b : Bool)
  | integer (n : Int)
  | number (x : Float)
  | text (s : String)
  | array (items : List Json)
  | object (members : List (String × Json))

instance : Inhabited Json := ⟨.null⟩

namespace Json

/-- An object from its members; of two with one key the later stays. -/
def ofMembers (members : List (String × Json)) : Json := .object (Entries.ofList members)

/-- The member of an object under a key. -/
def member? (key : String) : Json → Option Json
  | object members => Entries.find? key members
  | _ => none

/-- A member, null where it is missing. -/
def memberOrNull (key : String) (j : Json) : Json := (j.member? key).getD .null

/-- Reads text. -/
def asText? : Json → Option String
  | text s => some s
  | _ => none

/-- Reads a truth value. -/
def asBool? : Json → Option Bool
  | bool b => some b
  | _ => none

/-- Reads the items of an array. -/
def asArray? : Json → Option (List Json)
  | array items => some items
  | _ => none

/-- Reads the members of an object. -/
def asObject? : Json → Option (Entries Json)
  | object members => some members
  | _ => none

/-- Reads any number as the nearest binary64 number. -/
def asFloat? : Json → Option Float
  | integer n => some (Float.ofInt n)
  | number x => some x
  | _ => none

/-- Reads any number by its bits. -/
def asDouble? (j : Json) : Option Double := j.asFloat?.map .of

/-- Reads a count or a seed: an integer that is not negative. -/
def asNat? : Json → Option Nat
  | integer (.ofNat n) => some n
  | _ => none

/-- Reads the name of one of several alternatives: the name itself, or an
object with that one member and nothing in it. -/
def asChoice? : Json → Option String
  | text s => some s
  | object [(s, null)] => some s
  | _ => none

/-- Reads null as nothing and anything else with `read`. -/
def optional? {α : Type} (read : Json → Option α) : Json → Option (Option α)
  | null => some none
  | j => (read j).map some

/-- Reads every item of an array with `read`. -/
def list? {α : Type} (read : Json → Option α) (j : Json) : Option (List α) :=
  j.asArray?.bind fun items => items.mapM read

/-- Reads the members of an object with `read`, under their keys. -/
def table? {α : Type} (read : Json → Option α) (j : Json) : Option (Table α) :=
  j.asObject?.bind fun members =>
    (members.mapM fun m => (read m.2).map fun a => (m.1, a)).map Table.ofList

/-- Reads a member that must be there, where a missing one counts as null. -/
def required? {α : Type} (read : Json → Option α) (key : String) (j : Json) : Option α :=
  read (j.memberOrNull key)

/-- Reads a member if it is there; `default` stands for a missing one. -/
def defaulted? {α : Type} (read : Json → Option α) (default : α) (key : String) (j : Json) :
    Option α :=
  match j.member? key with
  | some m => read m
  | none => some default

/-- Reads a record from its members, or from an array that has them by their
places instead of their keys.  The array may end early, where the members left
out may be missing. -/
def record? {α : Type} (keys : List String) (read : Json → Option α) : Json → Option α
  | object members => read (object members)
  | array items => if items.length ≤ keys.length then read (ofMembers (keys.zip items)) else none
  | _ => none

end Json

/-- How trees are written as text, and text is read as a tree. -/
structure JsonText where
  write : Json → String
  read? : String → Option Json

/-- The text of a tree is read as the tree again: its numbers are read back
exactly, and it is not nested too deep. -/
def JsonText.Keeps (t : JsonText) (j : Json) : Prop := t.read? (t.write j) = some j

end FormulaSheet
