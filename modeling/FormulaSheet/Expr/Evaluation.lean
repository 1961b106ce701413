import FormulaSheet.Builtin.Answer
import FormulaSheet.Expr.Operator
import FormulaSheet.Random
import FormulaSheet.Registry

/-!
# Evaluating expression trees

`Expr.evaluate` gives a tree its value in a scope of named values.  Operands
and arguments are evaluated from left to right; `&&`, `||`, `?:` and `IF` only
evaluate what they need, and `IF` does so whatever function of that name is
registered.

A call of a function is a step down from a budget of `room` calls that may be
nested in one another (`Setting.call`); at the bottom a call fails before its
function is looked up.  Trees know nothing of the budget: they are handed the
function that makes calls for them.

Evaluation fails with an error or succeeds, and leaves the source of random
numbers as its draws have made it in either case.
-/

namespace FormulaSheet

/-- What evaluation happens in. -/
structure Setting where
  registry : Registry
  /-- The time to use in place of the host's clock. -/
  currentTime : Option Double
  host : Host

/-- The time in milliseconds since 1970. -/
def Setting.now (s : Setting) : Double := s.currentTime.getD (.of s.host.clock)

/-- A computation that may fail and may draw random numbers. -/
abbrev Run (α : Type) := ExceptT FormulaError (StateM RandomSource) α

/-- Makes a call of a function by its name, and knows the NaNs of the
machine. -/
structure Caller where
  call : String → List Value → Run Value
  nan : NanChoice

instance : CoeFun Caller fun _ => String → List Value → Run Value := ⟨Caller.call⟩

/-- Named values. -/
abbrev Scope := Table Value

/-- Draws a random number. -/
def drawNumber (host : Host) : Run Float := modifyGet fun r => r.next host

/-- Whether a call of this name chooses between its arguments unevaluated. -/
def isConditional (name : String) : Bool := capitals name == "IF"

namespace Expr

mutual

/-- The value of a tree. -/
def evaluate (call : Caller) (scope : Scope) : Expr → Run Value
  | literal v => pure v
  | name s =>
    match scope.get? s with
    | some v => pure v
    | none => throw (.undefinedName s)
  | array items => do return .array (← evaluateItems call scope [] items)
  | object fields => do return .object (← evaluateFields call scope [] fields)
  | unary op e => do return op.apply (← evaluate call scope e)
  | binary op l r => do
    let v ← evaluate call scope l
    let w ← evaluate call scope r
    return op.apply call.nan v w
  | and l r => do
    let v ← evaluate call scope l
    if v.isTruthy then evaluate call scope r else return v
  | or l r => do
    let v ← evaluate call scope l
    if v.isTruthy then return v else evaluate call scope r
  | conditional c y n => do
    let v ← evaluate call scope c
    if v.isTruthy then evaluate call scope y else evaluate call scope n
  | .call f args =>
    if isConditional f then evaluateChoice call scope args
    else do
      let values ← evaluateItems call scope [] args
      call f values

/-- The value of `IF` with these arguments.  A missing condition is null, and
so is a missing value. -/
def evaluateChoice (call : Caller) (scope : Scope) : List Expr → Run Value
  | [] => return .null
  | [c] => do
    let _ ← evaluate call scope c
    return .null
  | [c, y] => do
    let v ← evaluate call scope c
    if v.isTruthy then evaluate call scope y else return .null
  | c :: y :: n :: _ => do
    let v ← evaluate call scope c
    if v.isTruthy then evaluate call scope y else evaluate call scope n

/-- The values of items in turn; `out` holds those before in reverse. -/
def evaluateItems (call : Caller) (scope : Scope) (out : List Value) :
    List Expr → Run (List Value)
  | [] => return out.reverse
  | e :: es => do
    let v ← evaluate call scope e
    evaluateItems call scope (v :: out) es

/-- The values of fields in turn, filed over `out`. -/
def evaluateFields (call : Caller) (scope : Scope) (out : Entries Value) :
    List (String × Expr) → Run (Entries Value)
  | [] => return out
  | (k, e) :: fs => do
    let v ← evaluate call scope e
    evaluateFields call scope (out.insert k v) fs

end

end Expr

/-- The answer of a built-in function, which may call others by name. -/
def Builtin.answer (s : Setting) (call : Caller) (args : List Value) :
    Builtin → Run (Except Complaint Value)
  | plain p => return p.answer s.host.nan args
  | now => return .ok (.number s.now)
  | timeSince =>
    let since := Arguments.double args 0
    if since.isNaN then return .error .timestampNotANumber
    else return .ok (.number
      (s.host.nan.settle "TIME_SINCE" [s.now, since] (s.now.float - since.float)))
  | random => do return .ok (.number (.of (← drawNumber s.host)))
  | randomInteger =>
    let low := Number.ceil (Arguments.number args 0)
    let high := Number.floor (Arguments.number args 1)
    if low.isNaN || high.isNaN || high < low then return .error .emptyRange
    else do
      let draw ← call "RANDOM" []
      return .ok (.number (s.host.nan.settle "RANDINT" [draw.toDouble, .of low, .of high]
        (Number.floor (draw.toNumber * (high - low + 1)) + low)))
  | avg => do return .ok (← call "AVERAGE" args)

/-- Runs a function of the host to its end. -/
def Reply.run (s : Setting) (call : Caller) : Reply → Run (Except Complaint Value)
  | answer v => return .ok v
  | refuse c => return .error c
  | time next => (next s.currentTime s.now).run s call
  | draw next => do
    let x ← drawNumber s.host
    (next x).run s call
  | .call name args next => do
    let v ← call name args
    (next v).run s call

/-- Parameters bound to arguments by their places; a parameter without an
argument is bound to null. -/
def bindParameters : List String → List Value → List (String × Value)
  | [], _ => []
  | p :: ps, [] => (p, .null) :: bindParameters ps []
  | p :: ps, v :: vs => (p, v) :: bindParameters ps vs

/-- The result of an answer.  A complaint becomes an error in the name of the
function. -/
def Callable.settle (f : Callable) : Except Complaint Value → Run Value
  | .ok v => return v
  | .error c => throw (.function f.name c)

/-- Runs a function on arguments. -/
def Callable.run (f : Callable) (s : Setting) (call : Caller) (args : List Value) : Run Value :=
  match f.body with
  | .builtin b => do f.settle (← b.answer s call args)
  | .formula parameters e => e.evaluate call (Table.ofList (bindParameters parameters args))
  | .host reply => do f.settle (← (reply args).run s call)

/-- How many calls may be nested in one another. -/
def maxCallDepth : Nat := 128

/-- Calls a function by its name where `room` more calls may be nested. -/
def Setting.call (s : Setting) : (room : Nat) → Caller
  | 0 => ⟨fun _ _ => throw (.callDepthExceeded maxCallDepth), s.host.nan⟩
  | room + 1 =>
    { call := fun name args =>
        match s.registry.find? name with
        | none => throw (.unknownFunction name)
        | some f => f.run s (s.call room) args
      nan := s.host.nan }

/-- The value of a tree in a scope, outside of any call. -/
def Setting.evaluate (s : Setting) (scope : Scope) (e : Expr) : Run Value :=
  e.evaluate (s.call maxCallDepth) scope

end FormulaSheet
