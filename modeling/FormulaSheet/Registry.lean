import FormulaSheet.Builtin
import FormulaSheet.Error

/-!
# The registry of functions

A registry files functions under their names in capitals, so a look-up does
not depend on the case of ASCII letters.  A function filed under a name that
is in use replaces the one before it.

Besides the built-in functions and those that are defined by formulas there
are functions of the host's own.  Such a function sees its arguments, the time,
the numbers that it draws and the answers to the calls that it makes, and
nothing else (`Reply`); a call that fails ends it with the same error.
-/

namespace FormulaSheet

/-- What a function of the host does next, once its arguments are known. -/
inductive Reply where
  | answer (v : Value)
  | refuse (c : Complaint)
  /-- Asks for the time that is set, and for the time that it is. -/
  | time (next : Option Double → Double → Reply)
  /-- Draws a random number. -/
  | draw (next : Float → Reply)
  /-- Calls another function. -/
  | call (name : String) (args : List Value) (next : Value → Reply)

/-- What a call of a function does: it runs a built-in function, evaluates an
expression with the arguments bound to parameters, or asks the host. -/
inductive Body where
  | builtin (b : Builtin)
  | formula (parameters : List String) (e : Expr)
  | host (reply : List Value → Reply)

/-- A function that formulas can call. -/
structure Callable where
  profile : Profile
  body : Body

/-- The name that a function is filed under. -/
def Callable.name (f : Callable) : String := f.profile.name

/-- A built-in function as formulas call it. -/
def Builtin.callable (b : Builtin) : Callable := ⟨b.profile, .builtin b⟩

/-- Functions under their names in capitals. -/
structure Registry where
  functions : Table Callable

namespace Registry

/-- The registry of the built-in functions. -/
def builtins : Registry :=
  ⟨Table.ofList (Builtin.members.map fun b => (b.callable.name, b.callable))⟩

/-- The function of a name, in any case. -/
def find? (r : Registry) (name : String) : Option Callable := r.functions.get? (capitals name)

/-- Files a function under its name. -/
def register (r : Registry) (f : Callable) : Registry := ⟨r.functions.insert f.name f⟩

/-- Drops the function of a name, in any case. -/
def unregister (r : Registry) (name : String) : Registry := ⟨r.functions.erase (capitals name)⟩

/-- Every function, in the order of names. -/
def all (r : Registry) : List Callable := r.functions.values

/-- How many functions there are. -/
def size (r : Registry) : Nat := r.functions.size

theorem find?_register (r : Registry) (f : Callable) (name : String) :
    (r.register f).find? name = if f.name = capitals name then some f else r.find? name :=
  Table.get?_insert r.functions f.name (capitals name) f

end Registry

end FormulaSheet
