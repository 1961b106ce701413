import FormulaSheet.Sheet.Reading

/-!
# Changing a sheet

Variables are registered, replaced, removed and set.  Whatever changes, the
values that were computed from it are dropped: those of every variable that
the change reaches along dependents, and all computed values when the
functions or the context change.  An operation that fails changes nothing.
-/

namespace FormulaSheet.Sheet

/-- Makes the tables of what refers to what from the definitions. -/
def rebuild (s : Sheet) : Sheet :=
  let dependencies := Table.ofList (s.definitions.entries.filterMap fun (id, v) =>
    v.formula.map fun formula => (id, FormulaSheet.dependenciesOf s.names formula))
  { s with dependencies := dependencies, dependents := Graph.inverse dependencies }

/-- Drops the values of everything that depends on an id. -/
def invalidate (s : Sheet) (id : String) : Sheet :=
  let reached := s.dependents.reached id
  { s with values := s.values.filter fun other => !reached.contains other }

/-- Whether an id is that of a derived variable. -/
def isDerived (s : Sheet) (id : String) : Bool :=
  (s.definitions.get? id).any Variable.isDerived

/-- Drops the values of derived variables. -/
def clearDerived (s : Sheet) : Sheet :=
  { s with values := s.values.filter fun id => !s.isDerived id }

/-- Files a definition under its id and its name. -/
def file (s : Sheet) (v : Variable) : Sheet :=
  let names := match s.definitions.get? v.id with
    | some previous => s.names.erase previous.name
    | none => s.names
  let values := s.values.erase v.id
  { s with
    definitions := s.definitions.insert v.id v
    names := names.insert v.name v.id
    values := match v.initial? with
      | some value => values.insert v.id value
      | none => values }

/-- Registers a variable, in place of one of its id if there is one.  Two ids
cannot share a name. -/
def register (s : Sheet) (v : Variable) : Except SheetError Sheet :=
  let accepted := ((s.file v).rebuild).invalidate v.id
  match s.names.get? v.name with
  | some existing =>
    if existing = v.id then .ok accepted else .error (.duplicateName v.name existing)
  | none => .ok accepted

/-- Removes the variable of an id, and says which it was. -/
def unregister (s : Sheet) (id : String) : Option Variable × Sheet :=
  match s.definitions.get? id with
  | none => (none, s)
  | some v =>
    let gone : Sheet := { s with
      definitions := s.definitions.erase id
      names := s.names.erase v.name
      values := s.values.erase id }
    (some v, (gone.invalidate id).rebuild)

/-- Sets the value of a source.  The type has to accept it and no rule may be
broken. -/
def set (s : Sheet) (id : String) (value : Value) : Except SheetError Sheet :=
  match s.definitions.get? id with
  | none => .error (.unknownVariable id)
  | some v =>
    if v.isDerived then .error (.readOnly v.name)
    else if v.type.accepts value then
      match v.rules.bind fun r => r.check s.evaluator.setting.host.regex value with
      | some cause => .error (.violation v.name cause)
      | none => .ok ({ s with values := s.values.insert id value }.invalidate id)
    else .error (.typeMismatch v.name v.type value.kind)

/-- Sets the value of the source of a name. -/
def setByName (s : Sheet) (name : String) (value : Value) : Except SheetError Sheet :=
  match s.names.get? name with
  | some id => s.set id value
  | none => .error (.unknownVariable name)

/-- Changes the evaluator, on which every computed value depends. -/
def withEvaluator (s : Sheet) (e : Evaluator) : Sheet :=
  { s with evaluator := e }.clearDerived

/-- Changes the context of the formulas. -/
def update (s : Sheet) (u : ContextUpdate) : Sheet := s.withEvaluator (s.evaluator.update u)

/-- Makes every function of a library known to the formulas. -/
def install (s : Sheet) (l : Library) : Sheet := s.withEvaluator (l.install s.evaluator)

/-- Makes a function known to the formulas. -/
def registerFunction (s : Sheet) (f : Callable) : Sheet :=
  s.withEvaluator (s.evaluator.register f)

/-- Takes a function from the formulas, and says which it was. -/
def unregisterFunction (s : Sheet) (name : String) : Option Callable × Sheet :=
  let (f, e) := s.evaluator.unregister name
  (f, s.withEvaluator e)

/-- Evaluates a formula with the variables of the context. -/
def evaluate (s : Sheet) (formula : String) : Evaluated × Sheet :=
  let (r, e) := s.evaluator.evaluate formula
  (r, { s with evaluator := e })

end FormulaSheet.Sheet
