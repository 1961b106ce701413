import FormulaSheet.Sheet.Change

/-!
# Snapshots

A snapshot is the values that a sheet holds, by id; formulas are no part of
it.  Restoring one puts its values in place as they are and drops what was
computed from the values before.
-/

namespace FormulaSheet

/-- Values by the ids of the variables that hold them. -/
structure Snapshot where
  values : Table Value

namespace Snapshot

/-- A snapshot as JSON. -/
def toJson (s : Snapshot) : Json := Value.tableToJson s.values

/-- Reads a snapshot from JSON. -/
def ofJson? (j : Json) : Option Snapshot := (Value.tableOfJson? j).map .mk

/-- A snapshot as JSON text. -/
def toText (t : JsonText) (s : Snapshot) : String := t.write s.toJson

/-- Reads a snapshot from JSON text. -/
def ofText? (t : JsonText) (text : String) : Option Snapshot := (t.read? text).bind ofJson?

end Snapshot

namespace Sheet

/-- The values that the sheet holds. -/
def snapshot (s : Sheet) : Snapshot := ⟨s.values⟩

/-- Puts the values of a snapshot in place; ids without a variable are left
out. -/
def restore (s : Sheet) (p : Snapshot) : Sheet :=
  let known := p.values.filter s.definitions.contains
  let s := known.keys.foldl invalidate s
  { s with values := s.values.overlay known }

end Sheet

end FormulaSheet
