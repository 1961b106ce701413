import FormulaSheet.Definition

/-!
# Libraries of defined functions

A library keeps definitions beside a registry of the built-in functions and
everything defined.  A definition that is refused changes nothing; removing a
definition uncovers the built-in function of its name, if there is one.
-/

namespace FormulaSheet

/-- Accepted definitions under their names, and the registry with them. -/
structure Library where
  functions : Table CompiledFunction
  registry : Registry

namespace Library

/-- The library without definitions. -/
def empty : Library := ⟨.empty, .builtins⟩

/-- Accepts a compiled function in place of one of its name. -/
def add (l : Library) (f : CompiledFunction) : Library :=
  ⟨l.functions.insert f.definition.name f, l.registry.register f.callable⟩

/-- Accepts a definition, if there is nothing wrong with it. -/
def define (l : Library) (d : Definition) : Except FormulaError Library := d.compile.map l.add

/-- The defined function of a name, in any case. -/
def find? (l : Library) (name : String) : Option CompiledFunction :=
  l.functions.get? (capitals name)

/-- Every defined function, in the order of names. -/
def callables (l : Library) : List Callable := l.functions.values.map CompiledFunction.callable

/-- Drops the definition of a name, in any case, and says whether there was
one. -/
def remove (l : Library) (name : String) : Bool × Library :=
  if (l.find? name).isSome then
    let registry := l.registry.unregister (capitals name)
    let registry := match Registry.builtins.find? (capitals name) with
      | some f => registry.register f
      | none => registry
    (true, ⟨l.functions.erase (capitals name), registry⟩)
  else (false, l)

/-- Every definition, in the order of names. -/
def definitions (l : Library) : List Definition := l.functions.values.map (·.definition)

/-- Accepts those of the definitions that nothing is wrong with, and says how
many they were. -/
def addAll (l : Library) (ds : List Definition) : Nat × Library :=
  ds.foldl (fun (n, l) d =>
    match l.define d with
    | .ok l => (n + 1, l)
    | .error _ => (n, l)) (0, l)

/-- Accepts the definitions in turn, up to the first that is refused. -/
def defineAll (l : Library) : List Definition → Except FormulaError Library
  | [] => .ok l
  | d :: ds =>
    match l.define d with
    | .ok l => l.defineAll ds
    | .error e => .error e

/-- How many definitions there are. -/
def size (l : Library) : Nat := l.functions.size

/-- Whether there are no definitions. -/
def isEmpty (l : Library) : Bool := l.functions.entries.isEmpty

end Library

end FormulaSheet
