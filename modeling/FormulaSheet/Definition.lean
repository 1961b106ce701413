import FormulaSheet.Expr.Parser
import FormulaSheet.Json
import FormulaSheet.Registry

/-!
# Definitions of functions

An author defines a function by its name, its parameters and a formula.  A
definition is compiled before it is used: the names are checked, the formula
is parsed, and the name is put in capitals.  The formula may be written as a
statement, `return …;`.

Names are compared without regard to case when they are checked, and two
letters beyond ASCII differ from an ASCII letter in case alone: the long s and
the Kelvin sign.
-/

namespace FormulaSheet

/-- A function as its author writes it. -/
structure Definition where
  name : String
  description : String
  parameters : List String
  body : String
deriving DecidableEq

/-- Whether names may begin with `c`. -/
def opensName (c : Char) : Bool := c.isAlpha || c == '_' || c == 'ſ' || c == '\u212a'

/-- Whether text is the name of a function or a parameter. -/
def isFunctionName (s : String) : Bool :=
  match s.toList with
  | [] => false
  | c :: cs => opensName c && cs.all fun d => opensName d || d.isDigit

/-- The formula in a body that may be written as a statement. -/
def statementBody (body : List Char) : List Char :=
  let body := Character.trim body
  let body :=
    match body with
    | 'r' :: 'e' :: 't' :: 'u' :: 'r' :: 'n' :: c :: cs =>
      if Character.isBlank c || c == '(' then c :: cs else body
    | body => body
  Character.trimEnd (Character.dropEndWhile (· == ';') (Character.trim body))

/-- A definition that was accepted, its name in capitals, with its formula as
a tree. -/
structure CompiledFunction where
  definition : Definition
  body : Expr

namespace Definition

/-- The first thing wrong with parameters, of which `seen` come before. -/
def parameterFault? (owner : String) (seen : List String) : List String → Option FormulaError
  | [] => none
  | p :: ps =>
    if !isFunctionName p || isReserved p then some (.invalidParameterName owner p)
    else if seen.contains p then some (.duplicateParameter owner p)
    else parameterFault? owner (p :: seen) ps

/-- Checks a definition and parses its formula. -/
def compile (d : Definition) : Except FormulaError CompiledFunction :=
  if isFunctionName d.name then
    match parameterFault? (capitals d.name) [] d.parameters with
    | some e => .error e
    | none => (Expr.ofChars (statementBody d.body.toList)).map fun e =>
        ⟨{ d with name := capitals d.name }, e⟩
  else .error (.invalidFunctionName d.name)

/-- The names of what is in a definition. -/
def keys : List String := ["name", "description", "parameters", "body"]

/-- Reads a definition from JSON. -/
def ofJson? : Json → Option Definition :=
  Json.record? keys fun j => do
    return {
      name := ← j.required? Json.asText? "name"
      description := ← j.defaulted? Json.asText? "" "description"
      parameters := ← j.defaulted? (Json.list? Json.asText?) [] "parameters"
      body := ← j.required? Json.asText? "body" }

/-- A definition as JSON. -/
def toJson (d : Definition) : Json :=
  .ofMembers [("name", .text d.name), ("description", .text d.description),
    ("parameters", .array (d.parameters.map .text)), ("body", .text d.body)]

end Definition

/-- The function of a definition as formulas call it. -/
def CompiledFunction.callable (f : CompiledFunction) : Callable where
  profile := {
    name := capitals f.definition.name
    category := .custom
    description := f.definition.description
    parameters := f.definition.parameters.map fun p => .required p .any
    returns := .any }
  body := .formula f.definition.parameters f.body

end FormulaSheet
