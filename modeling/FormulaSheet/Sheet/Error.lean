import FormulaSheet.Error
import FormulaSheet.Variable

/-!
# What goes wrong with variables

Errors are kept by their cause and put into words by `SheetError.message`.
Variables are named in them as formulas name them.
-/

namespace FormulaSheet

/-- Why a sheet refuses an operation or has no value for a variable. -/
inductive SheetError where
  /-- There is no variable of this id, or this name. -/
  | unknownVariable (key : String)
  /-- The name is in use by the variable of another id. -/
  | duplicateName (name existing : String)
  /-- The names along a cycle, from a variable back to itself. -/
  | circularDependency (path : List String)
  | typeMismatch (name : String) (expected : VariableType) (actual : String)
  | violation (name : String) (cause : Violation)
  /-- The value is computed. -/
  | readOnly (name : String)
  /-- The formula has no value. -/
  | evaluation (name : String) (cause : FormulaError)

/-- The error in words. -/
def SheetError.message : SheetError → String
  | unknownVariable key => "Unknown variable: " ++ key
  | duplicateName name existing =>
    "Variable name " ++ name ++ " is already used by " ++ existing
  | circularDependency path =>
    "Circular dependency detected: " ++ String.intercalate " -> " path
  | typeMismatch name expected actual =>
    "Type mismatch for variable " ++ name ++ ": expected " ++ expected.name ++ ", got " ++ actual
  | violation name cause =>
    "Validation failed for variable " ++ name ++ ": " ++ cause.message
  | readOnly name => "Variable " ++ name ++ " is computed from a formula and cannot be set"
  | evaluation name cause =>
    "Failed to evaluate variable " ++ name ++ ": " ++ cause.message

end FormulaSheet
