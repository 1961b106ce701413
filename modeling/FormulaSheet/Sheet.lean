import FormulaSheet.Dependency
import FormulaSheet.Evaluator
import FormulaSheet.Sheet.Error

/-!
# Sheets

A sheet keeps variables: their definitions, and the values that are held.  A
source holds the value that it was given; a derived variable holds its value
once it was read, until something that the value depends on changes.

Beside the definitions a sheet keeps three tables made from them: the ids of
names, the ids that each formula refers to, and the ids whose formulas refer
to each.
-/

namespace FormulaSheet

/-- Variables, and the evaluator of their formulas. -/
structure Sheet where
  /-- Definitions by id. -/
  definitions : Table Variable
  /-- Ids by name. -/
  names : Table String
  /-- What each derived variable's formula refers to. -/
  dependencies : Graph
  /-- Whose formulas refer to each variable. -/
  dependents : Graph
  /-- The values that are held, by id. -/
  values : Table Value
  evaluator : Evaluator

namespace Sheet

/-- A sheet without variables. -/
def ofEvaluator (e : Evaluator) : Sheet := ⟨.empty, .empty, .empty, .empty, .empty, e⟩

/-- The variable of an id. -/
def find? (s : Sheet) (id : String) : Option Variable := s.definitions.get? id

/-- The variable of a name. -/
def findByName? (s : Sheet) (name : String) : Option Variable :=
  (s.names.get? name).bind s.definitions.get?

/-- Every variable, in the order of names. -/
def all (s : Sheet) : List Variable := s.names.values.filterMap s.definitions.get?

/-- How many variables there are. -/
def size (s : Sheet) : Nat := s.definitions.size

/-- Whether there are no variables. -/
def isEmpty (s : Sheet) : Bool := s.definitions.entries.isEmpty

/-- The ids that a variable's formula refers to. -/
def dependenciesOf (s : Sheet) (id : String) : List String := s.dependencies.next id

/-- The ids whose formulas refer to a variable, in order. -/
def dependentsOf (s : Sheet) (id : String) : List String := s.dependents.next id

/-- The name of an id, or the id itself if there is no such variable. -/
def nameOf (s : Sheet) (id : String) : String :=
  match s.definitions.get? id with
  | some v => v.name
  | none => id

/-- Finds a cycle among the formulas, if there is one, without reading
anything.  Ids are tried in order. -/
def checkCycles (s : Sheet) : Except SheetError Unit :=
  match s.dependencies.keys.findSome? s.dependencies.cycleFrom? with
  | some ids => .error (.circularDependency (ids.map s.nameOf))
  | none => .ok ()

end Sheet

end FormulaSheet
