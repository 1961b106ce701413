import FormulaSheet.Sheet

/-!
# Reading variables

A source is read as the value that it holds, null if it holds none.  A derived
variable is read as the value that it holds, and else its formula is
evaluated: the variables that it refers to are read in order, and its value is
held from then on.

Reading keeps a stack of the ids that are being evaluated, so that a variable
that is needed for itself is reported as a cycle.  Of the references of a
formula those after the first that fails are not read any more, and its error
is reported; the formula is still evaluated, without them, which can draw
random numbers and leave a result behind.

The ids on the stack differ, so reads are nested in one another at most once
more than there are variables; `room` bounds the nesting.
-/

namespace FormulaSheet

/-- What reading may change: the values that are held, and what the evaluator
remembers. -/
structure Held where
  values : Table Value
  memo : Memo

/-- Reads the variable of an id. -/
abbrev Reader := String → Held → Except SheetError Value × Held

/-- What is known while the references of one formula are read: what is held,
and the first error. -/
structure Gathering where
  held : Held
  failure : Option SheetError

namespace Sheet

/-- What the sheet holds. -/
def held (s : Sheet) : Held := ⟨s.values, s.evaluator.memo⟩

/-- The sheet with what it holds replaced. -/
def withHeld (s : Sheet) (h : Held) : Sheet :=
  { s with values := h.values, evaluator := { s.evaluator with memo := h.memo } }

/-- The value of a reference.  Once a reference has failed none is read. -/
def lookUp (s : Sheet) (read : Reader) (name : String) : StateM Gathering (Option Value) :=
  fun g =>
    match s.names.get? name, g.failure with
    | none, _ => (none, g)
    | some _, some _ => (none, g)
    | some id, none =>
      match read id g.held with
      | (.ok v, held) => (some v, { g with held := held })
      | (.error e, held) => (none, ⟨held, some e⟩)

/-- Evaluates the formula of a variable. -/
def compute (s : Sheet) (read : Reader) (v : Variable) (formula : String) : Reader :=
  fun id held =>
    let outline := Outline.ofText (formulaBody formula.toList)
    let ((text, _), g) := (outline.substitute (s.lookUp read)).run ⟨held, none⟩
    let (outcome, memo) := s.evaluator.setting.conclude text g.held.memo
    match g.failure, outcome with
    | some e, _ => (.error e, ⟨g.held.values, memo⟩)
    | none, .error e => (.error (.evaluation v.name e), ⟨g.held.values, memo⟩)
    | none, .ok value => (.ok value, ⟨g.held.values.insert id value, memo⟩)

/-- The names along the cycle that an id on the stack closes; the last id
comes first on the stack. -/
def cyclePath (s : Sheet) (stack : List String) (id : String) : List String :=
  (s.nameOf id :: (stack.takeWhile (· != id)).map s.nameOf ++ [s.nameOf id]).reverse

/-- Reads a variable while those on the stack are being evaluated. -/
def readFrom (s : Sheet) : (room : Nat) → (stack : List String) → Reader
  | 0, _, id, held => (.error (.unknownVariable id), held)
  | room + 1, stack, id, held =>
    match s.definitions.get? id with
    | none => (.error (.unknownVariable id), held)
    | some v =>
      match held.values.get? id, v.formula with
      | some value, _ => (.ok value, held)
      | none, none => (.ok .null, held)
      | none, some formula =>
        if stack.contains id then (.error (.circularDependency (s.cyclePath stack id)), held)
        else s.compute (s.readFrom room (id :: stack)) v formula id held

/-- Reads the variable of an id. -/
def read (s : Sheet) (id : String) : Except SheetError Value × Sheet :=
  let (result, held) := s.readFrom (s.size + 1) [] id s.held
  (result, s.withHeld held)

/-- Reads the variable of a name. -/
def readByName (s : Sheet) (name : String) : Except SheetError Value × Sheet :=
  match s.names.get? name with
  | some id => s.read id
  | none => (.error (.unknownVariable name), s)

/-- Reads variables into a table by their names, up to the first error. -/
def readInto (values : Table Value) : List Variable → Sheet →
    Except SheetError (Table Value) × Sheet
  | [], s => (.ok values, s)
  | v :: vs, s =>
    match s.read v.id with
    | (.ok value, s) => readInto (values.insert v.name value) vs s
    | (.error e, s) => (.error e, s)

/-- Reads every variable, in the order of names. -/
def readAll (s : Sheet) : Except SheetError (Table Value) × Sheet := readInto .empty s.all s

end Sheet

end FormulaSheet
