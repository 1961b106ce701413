import FormulaSheet.Expr

/-!
# Functions as they are described

A function is described by a profile: its name in capitals, a category, what
it does, its parameters and the kind of its result.  The kinds are for readers
only; a call accepts any arguments.
-/

namespace FormulaSheet

/-- The groups that functions are listed in. -/
inductive Category where
  | math | array | logical | text | date | statistical | custom
deriving DecidableEq

/-- The name of a category. -/
def Category.name : Category → String
  | math => "math"
  | array => "array"
  | logical => "logical"
  | text => "text"
  | date => "date"
  | statistical => "statistical"
  | custom => "custom"

/-- Every category. -/
def Category.all : List Category := [math, array, logical, text, date, statistical, custom]

/-- The category of a name. -/
def Category.ofName? (s : String) : Option Category := Category.all.find? fun c => c.name == s

/-- What a parameter or a result is meant to be. -/
inductive Kind where
  | any | number | text | boolean | array | date
deriving DecidableEq

/-- The name of a kind. -/
def Kind.name : Kind → String
  | any => "any"
  | number => "number"
  | text => "string"
  | boolean => "boolean"
  | array => "array"
  | date => "date"

/-- A described parameter. -/
structure Parameter where
  name : String
  kind : Kind
  isOptional : Bool
  default : Option Value

/-- A parameter that must be given. -/
def Parameter.required (name : String) (kind : Kind) : Parameter := ⟨name, kind, false, none⟩

/-- A parameter that may be left out, and what stands for it then. -/
def Parameter.optional (name : String) (kind : Kind) (default : Option Value) : Parameter :=
  ⟨name, kind, true, default⟩

/-- The description of a function. -/
structure Profile where
  name : String
  category : Category
  description : String
  parameters : List Parameter
  returns : Kind

/-- A name with its ASCII letters in capitals.  Functions are looked up by
it. -/
def capitals (s : String) : String := String.ofList (s.toList.map Char.toUpper)

end FormulaSheet
