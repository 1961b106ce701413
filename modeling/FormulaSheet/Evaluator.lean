import FormulaSheet.Context
import FormulaSheet.Expr.Evaluation
import FormulaSheet.Expr.Parser
import FormulaSheet.Library
import FormulaSheet.Outline.Arguments
import FormulaSheet.Outline.CallSite
import FormulaSheet.Outline.Substitution

/-!
# Evaluating formula text

A formula is evaluated in three steps.

1. References to variables are replaced by the literals of their values.
2. Calls are resolved, innermost first, each replaced by the literal of its
   value.  An argument that is plain data is taken as it is; any other is
   evaluated, and if that fails it is kept as its own text.
3. What is left is parsed and evaluated as a tree.

Results, failures too, are remembered by the text after step 1, so a change of
a variable leads to another text and never to a stale result.  Everything else
that a result depends on empties the memo when it changes.
-/

namespace FormulaSheet

/-- What a formula comes to. -/
abbrev Outcome := Except FormulaError Value

namespace Setting

/-- The value of an argument's text. -/
def argument (s : Setting) (segment : List Char) : Run Value :=
  match Expr.ofChars segment with
  | .error _ => return .text (String.ofList segment)
  | .ok e =>
    match e.asLiteral? with
    | some v => return v
    | none =>
      tryCatch (s.evaluate .empty e) fun _ => return .text (String.ofList segment)

/-- Resolves the innermost call of a text, if it has a call. -/
def resolveOne (s : Setting) (text : List Char) : Run (Option (List Char)) := do
  match (Outline.ofText text).innermost with
  | .error e => throw e
  | .ok none => return none
  | .ok (some site) =>
    let args ← (splitArguments (Outline.text site.inner)).mapM s.argument
    let v ← s.call maxCallDepth (String.ofList site.name) args
    return some (site.replace v.splice)

/-- Resolves at most `room` calls of a text. -/
def resolveFrom (s : Setting) : (room : Nat) → List Char → Run (List Char)
  | 0, text => return text
  | room + 1, text => do
    match ← s.resolveOne text with
    | none => return text
    | some text => s.resolveFrom room text

/-- How many calls of a text can be resolved at most: every step takes away an
opening parenthesis or an identifier that is not reserved. -/
def callBound (text : List Char) : Nat := ((Outline.ofText text).filter Piece.bounds).length

/-- Resolves every call of a text. -/
def resolve (s : Setting) (text : List Char) : Run (List Char) :=
  s.resolveFrom (callBound text) text

/-- The value of a text without calls; blank text is null. -/
def finish (s : Setting) (text : List Char) : Run Value :=
  if (Character.trim text).isEmpty then return .null
  else
    let failed (cause : FormulaError) : Run Value := throw (.residue (String.ofList text) cause)
    match Expr.ofChars text with
    | .error cause => failed cause
    | .ok e => tryCatch (s.evaluate .empty e) failed

/-- The value of a text without references. -/
def reduce (s : Setting) (text : List Char) : Run Value := do
  s.finish (← s.resolve text)

end Setting

/-- What evaluation leaves behind: results by the text they were reduced from,
and the source of random numbers. -/
structure Memo where
  results : Table Outcome
  random : RandomSource

/-- A memo without results. -/
def Memo.ofSeed (seed : Option Nat) : Memo := ⟨.empty, .ofSeed seed⟩

/-- The memo without its results. -/
def Memo.clear (m : Memo) : Memo := { m with results := .empty }

/-- The outcome of a text without references, remembered or reduced. -/
def Setting.conclude (s : Setting) (text : List Char) (m : Memo) : Outcome × Memo :=
  let key := String.ofList text
  match m.results.get? key with
  | some outcome => (outcome, m)
  | none =>
    let (outcome, random) := (s.reduce text).run.run m.random
    (outcome, ⟨m.results.insert key outcome, random⟩)

/-- The part of a formula that is evaluated: without blanks around it and
without an equals sign before it. -/
def formulaBody (formula : List Char) : List Char :=
  match Character.trim formula with
  | '=' :: cs => Character.trim cs
  | cs => Character.trim cs

/-- The result of evaluating a formula: its outcome, and the variables that
were substituted. -/
structure Evaluated where
  outcome : Outcome
  dependencies : List String

/-- The value, null for a failure. -/
def Evaluated.value (r : Evaluated) : Value := r.outcome.toOption.getD .null

/-- The message of a failure. -/
def Evaluated.message? (r : Evaluated) : Option String :=
  match r.outcome with
  | .ok _ => none
  | .error e => some e.message

/-- The kind of the value, or that it is an error. -/
def Evaluated.kind (r : Evaluated) : String :=
  match r.outcome with
  | .ok v => v.kind
  | .error _ => "error"

/-- Evaluates formulas, and remembers their results. -/
structure Evaluator where
  setting : Setting
  bindings : Table Value
  memo : Memo

namespace Evaluator

/-- An evaluator with a registry and a context, on a host. -/
def create (host : Host) (registry : Registry) (c : Context) : Evaluator where
  setting := ⟨registry, c.currentTime, host⟩
  bindings := c.bindings
  memo := .ofSeed c.seed

/-- The context at the moment; the seed is as draws have left it. -/
def context (e : Evaluator) : Context :=
  ⟨e.bindings, e.setting.currentTime, e.memo.random.seed⟩

/-- Evaluates a formula with variables from a table. -/
def evaluateWith (e : Evaluator) (bindings : Table Value) (formula : String) :
    Evaluated × Evaluator :=
  let (text, names) :=
    (Outline.ofText (formulaBody formula.toList)).substituteTable bindings
  let (outcome, memo) := e.setting.conclude text e.memo
  (⟨outcome, names⟩, { e with memo := memo })

/-- Evaluates a formula with the variables of the context. -/
def evaluate (e : Evaluator) (formula : String) : Evaluated × Evaluator :=
  e.evaluateWith e.bindings formula

/-- Forgets every result. -/
def clear (e : Evaluator) : Evaluator := { e with memo := e.memo.clear }

/-- Changes the context, and forgets every result. -/
def update (e : Evaluator) (u : ContextUpdate) : Evaluator where
  setting := { e.setting with currentTime := u.currentTime.getD e.setting.currentTime }
  bindings :=
    match u.bindings with
    | some vs => e.bindings.overlay vs
    | none => e.bindings
  memo :=
    match u.seed with
    | some seed => ⟨.empty, e.memo.random.reseed seed⟩
    | none => e.memo.clear

/-- The evaluator with another registry, its results forgotten. -/
def withRegistry (e : Evaluator) (r : Registry) : Evaluator :=
  { e with setting := { e.setting with registry := r }, memo := e.memo.clear }

/-- Registers a function. -/
def register (e : Evaluator) (f : Callable) : Evaluator :=
  e.withRegistry (e.setting.registry.register f)

/-- Drops a function, and says which it was. -/
def unregister (e : Evaluator) (name : String) : Option Callable × Evaluator :=
  (e.setting.registry.find? name, e.withRegistry (e.setting.registry.unregister name))

end Evaluator

namespace Library

/-- A new evaluator that knows the built-in functions and everything
defined. -/
def evaluator (l : Library) (host : Host) (c : Context) : Evaluator :=
  .create host l.registry c

/-- Registers every defined function in an evaluator. -/
def install (l : Library) (e : Evaluator) : Evaluator := l.callables.foldl Evaluator.register e

end Library

end FormulaSheet
