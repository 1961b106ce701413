import FormulaSheet.Value.Json

/-!
# The context of an evaluation

What a formula can see besides itself: variables, the time, and the seed of
random numbers.  A context changes by updates, which leave alone what they do
not name.
-/

namespace FormulaSheet

/-- Inputs of evaluation besides the formula. -/
structure Context where
  bindings : Table Value
  currentTime : Option Double
  seed : Option Nat

/-- A change of a context; what is absent stays. -/
structure ContextUpdate where
  bindings : Option (Table Value)
  currentTime : Option (Option Double)
  seed : Option (Option Nat)

namespace Context

/-- The context without variables, time or seed. -/
def empty : Context := ⟨.empty, none, none⟩

/-- The names of what is in a context. -/
def keys : List String := ["variables", "currentTime", "randomSeed"]

/-- Reads a context from JSON; everything in it may be missing. -/
def ofJson? : Json → Option Context :=
  Json.record? keys fun j => do
    return {
      bindings := ← j.defaulted? Value.tableOfJson? .empty "variables"
      currentTime := ← j.defaulted? (Json.optional? Json.asDouble?) none "currentTime"
      seed := ← j.defaulted? (Json.optional? Json.asNat?) none "randomSeed" }

end Context

/-- Reads an update from JSON; a null time or seed unsets it. -/
def ContextUpdate.ofJson? (j : Json) : Option ContextUpdate := do
  return {
    bindings := ← j.defaulted? (fun v => (Value.tableOfJson? v).map some) none "variables"
    currentTime := ←
      j.defaulted? (fun v => (v.optional? Json.asDouble?).map some) none "currentTime"
    seed := ← j.defaulted? (fun v => (v.optional? Json.asNat?).map some) none "randomSeed" }

end FormulaSheet
