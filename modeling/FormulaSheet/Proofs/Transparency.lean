import FormulaSheet.Proofs.Coherence

/-!
# The memo does not show

An evaluator answers from its memo when a text was reduced before.  Whatever
it was asked to do in the meantime, the answer is the one that a new evaluator
with the same functions and the same context would give, as long as no random
number is drawn and the time is given to it.

The results of texts that draw are the exception: they are remembered as well,
and a new evaluator would draw again.

* `Evaluator.Request`, `Evaluator.Reaches` — what an evaluator is asked to do,
  and the evaluators that requests lead to;
* `Evaluator.Reaches.coherent` — what is remembered is what its text comes to;
* `Evaluator.Reaches.evaluated_eq_anew` — an evaluator that has a memo answers
  like one that has none.
-/

namespace FormulaSheet

attribute [ext] Evaluated

namespace Evaluator

/-- Evaluates a formula with variables from any source that only answers. -/
def evaluateFrom (e : Evaluator) (source : String → Option Value) (formula : String) :
    Evaluated × Evaluator :=
  let substituted :=
    Id.run ((Outline.ofText (formulaBody formula.toList)).substitute fun name =>
      pure (source name))
  let concluded := e.setting.conclude substituted.1 e.memo
  (⟨concluded.1, substituted.2⟩, { e with memo := concluded.2 })

/-- A table is such a source. -/
theorem evaluateWith_eq_evaluateFrom (e : Evaluator) (bindings : Table Value) (formula : String) :
    e.evaluateWith bindings formula = e.evaluateFrom bindings.get? formula := by
  unfold evaluateWith evaluateFrom
  generalize Outline.ofText (formulaBody formula.toList) = o
  have table : (Id.run (o.substitute fun name => pure (bindings.get? name))) =
      o.substituteTable bindings := rfl
  rw [table]

/-- A plain evaluation takes names from the bindings. -/
theorem evaluate_eq_evaluateFrom (e : Evaluator) (formula : String) :
    e.evaluate formula = e.evaluateFrom e.bindings.get? formula :=
  e.evaluateWith_eq_evaluateFrom e.bindings formula

/-- What an evaluator is asked to do. -/
inductive Request where
  /-- Evaluate a formula with the variables of the context. -/
  | evaluate (formula : String)
  | evaluateFrom (source : String → Option Value) (formula : String)
  | update (u : ContextUpdate)
  | register (f : Callable)
  | unregister (name : String)
  | clear
  /-- The host's clock moves on. -/
  | wait (clock : Float)

/-- How many random numbers were drawn so far. -/
def drawn (e : Evaluator) : Nat := e.memo.random.drawn

/-- The evaluator that a request leads to. -/
def perform (e : Evaluator) : Request → Evaluator
  | .evaluate formula => (e.evaluate formula).2
  | .evaluateFrom source formula => (e.evaluateFrom source formula).2
  | .update u => e.update u
  | .register f => e.register f
  | .unregister name => (e.unregister name).2
  | .clear => e.clear
  | .wait clock => { e with setting := e.setting.atClock clock }

/-- The host's clock moves on only if it does not show. -/
def Timed (e : Evaluator) : Request → Prop
  | .wait _ => e.setting.currentTime.isSome = true
  | _ => True

/-- The evaluators that timed requests lead to. -/
inductive Reaches (start : Evaluator) : Evaluator → Prop
  | start : Reaches start start
  | step {e : Evaluator} {r : Request} :
      Reaches start e → e.Timed r → Reaches start (e.perform r)

/-- A new evaluator with the functions and the context that this one has. -/
def anew (e : Evaluator) : Evaluator := create e.setting.host e.setting.registry e.context

section Evaluate

variable (e : Evaluator) (source : String → Option Value) (formula : String)

/-- The text that a formula is reduced from: its references with their values
in place. -/
def textFrom : List Char :=
  (Outline.ofText (formulaBody formula.toList)).textWith source

/-- An evaluation leaves all but the memo as it is. -/
theorem snd_evaluateFrom : (e.evaluateFrom source formula).2 =
    { e with memo := (e.setting.conclude (textFrom source formula) e.memo).2 } := by
  rw [textFrom, ← Outline.fst_substitute_pure, evaluateFrom]

/-- Its outcome is that of the text with the values in it. -/
theorem outcome_evaluateFrom : (e.evaluateFrom source formula).1.outcome =
    (e.setting.conclude (textFrom source formula) e.memo).1 := by
  rw [textFrom, ← Outline.fst_substitute_pure, evaluateFrom]

/-- The names that are substituted do not depend on the evaluator. -/
theorem dependencies_evaluateFrom (e' : Evaluator) :
    (e.evaluateFrom source formula).1.dependencies =
      (e'.evaluateFrom source formula).1.dependencies := by
  rw [evaluateFrom, evaluateFrom]

end Evaluate

/-- No request takes draws back. -/
theorem le_drawn_perform (e : Evaluator) (r : Request) : e.drawn ≤ (e.perform r).drawn := by
  have evaluated : ∀ source formula, e.drawn ≤ (e.evaluateFrom source formula).2.drawn := by
    intro source formula
    rw [snd_evaluateFrom]
    exact e.setting.conclude_le_drawn _ e.memo
  cases r with
  | evaluate formula =>
      rw [perform, evaluate_eq_evaluateFrom]
      exact evaluated e.bindings.get? formula
  | evaluateFrom source formula => exact evaluated source formula
  | update u =>
      exact Nat.le_of_eq (e.drawn_update u).symm
  | register f => exact Nat.le_refl _
  | unregister name => exact Nat.le_refl _
  | clear => exact Nat.le_refl _
  | wait clock => exact Nat.le_refl _

/-- A request that makes no draw leaves a memo in which every result is what
its text comes to. -/
theorem coherent_perform {e : Evaluator} (he : e.memo.Coherent e.setting) {r : Request}
    (timed : e.Timed r) (quiet : (e.perform r).drawn = e.drawn) :
    (e.perform r).memo.Coherent (e.perform r).setting := by
  have evaluated : ∀ source formula, (e.evaluateFrom source formula).2.drawn = e.drawn →
      (e.evaluateFrom source formula).2.memo.Coherent
        (e.evaluateFrom source formula).2.setting := by
    intro source formula quiet
    rw [snd_evaluateFrom] at quiet ⊢
    exact (Setting.conclude_quiet _ he quiet).2
  cases r with
  | evaluate formula =>
      rw [perform, evaluate_eq_evaluateFrom] at quiet ⊢
      exact @evaluated e.bindings.get? formula quiet
  | evaluateFrom source formula => exact @evaluated source formula quiet
  | update u =>
      apply Memo.coherent_of_empty
      exact e.results_update u
  | register f => exact @Memo.coherent_of_empty _ (e.register f).memo rfl
  | unregister name => exact @Memo.coherent_of_empty _ (e.unregister name).2.memo rfl
  | clear => exact @Memo.coherent_of_empty _ e.clear.memo rfl
  | wait clock =>
      intro key outcome held
      exact (he held).atClock timed clock

/-- The count of draws never goes down. -/
theorem Reaches.le_drawn {start e : Evaluator} (h : Reaches start e) : start.drawn ≤ e.drawn := by
  induction h with
  | start => exact Nat.le_refl _
  | step _ _ ih => exact Nat.le_trans ih (le_drawn_perform _ _)

/-- **Every result that requests without a draw leave behind is what its text
comes to.** -/
theorem Reaches.coherent {start e : Evaluator} (hstart : start.memo.Coherent start.setting)
    (h : Reaches start e) (quiet : e.drawn = start.drawn) : e.memo.Coherent e.setting := by
  induction h with
  | start => exact hstart
  | @step e r hreach timed ih =>
      have before := hreach.le_drawn
      have after := le_drawn_perform e r
      exact @coherent_perform e (ih (by omega)) r timed (by omega)

/-- What a text comes to without a draw is what a new evaluator makes of it. -/
theorem outcome_evaluateFrom_anew {e : Evaluator} {source : String → Option Value}
    {formula : String} {outcome : Outcome}
    (steady : e.setting.Steady (textFrom source formula) outcome) :
    (e.anew.evaluateFrom source formula).1.outcome = outcome := by
  have setting : e.anew.setting = e.setting := rfl
  have miss : e.anew.memo.results.get? (String.ofList (textFrom source formula)) = none := rfl
  rw [outcome_evaluateFrom, Setting.conclude_of_none miss, setting, steady e.anew.memo.random]

/-- With a coherent memo an evaluation that makes no draw is answered as by a
new evaluator. -/
theorem evaluateFrom_eq_anew {e : Evaluator} (he : e.memo.Coherent e.setting)
    {source : String → Option Value} {formula : String}
    (quiet : (e.evaluateFrom source formula).2.drawn = e.drawn) :
    (e.evaluateFrom source formula).1 = (e.anew.evaluateFrom source formula).1 := by
  rw [snd_evaluateFrom] at quiet
  obtain ⟨steady, _⟩ := Setting.conclude_quiet (textFrom source formula) he quiet
  rw [← outcome_evaluateFrom] at steady
  exact Evaluated.ext (outcome_evaluateFrom_anew steady).symm
    (dependencies_evaluateFrom e source formula e.anew)

/-- **The memo does not show.**  After any requests, an evaluation is answered
as a new evaluator with the functions and the context of the moment would
answer it, whether the variables are those of the context or come from any
source.  No random number has been drawn by then, and time passes only where
the evaluator was given its time. -/
theorem Reaches.evaluated_eq_anew {host : Host} {registry : Registry} {c : Context}
    {e : Evaluator} (h : Reaches (create host registry c) e) :
    (∀ formula, (e.perform (.evaluate formula)).drawn = 0 →
      (e.evaluate formula).1 = (e.anew.evaluate formula).1) ∧
    ∀ source formula, (e.perform (.evaluateFrom source formula)).drawn = 0 →
      (e.evaluateFrom source formula).1 = (e.anew.evaluateFrom source formula).1 := by
  have hstart : (create host registry c).memo.Coherent (create host registry c).setting :=
    Memo.coherent_of_empty rfl
  have none : (create host registry c).drawn = 0 := rfl
  have answered : ∀ source formula, (e.evaluateFrom source formula).2.drawn = 0 →
      (e.evaluateFrom source formula).1 = (e.anew.evaluateFrom source formula).1 := by
    intro source formula quiet
    have after := le_drawn_perform e (.evaluateFrom source formula)
    change e.drawn ≤ (e.evaluateFrom source formula).2.drawn at after
    exact evaluateFrom_eq_anew (h.coherent hstart (by omega)) (by omega)
  refine ⟨?_, answered⟩
  intro formula quiet
  rw [perform, evaluate_eq_evaluateFrom] at quiet
  rw [evaluate_eq_evaluateFrom, evaluate_eq_evaluateFrom]
  exact answered e.bindings.get? formula quiet

/-- An evaluator that is given its time, a minute after the beginning. -/
def minuteEvaluator : Evaluator := .create .still .builtins ⟨.empty, some 60000, none⟩

/-- It has evaluated half of its time, and the host's clock has moved on. -/
def laterEvaluator : Evaluator :=
  (minuteEvaluator.perform (.evaluateFrom (fun _ => some (.number 2)) "NOW() / parts")).perform
    (.wait 90000)

/-- The evaluator of a later minute is reached. -/
theorem laterEvaluator_reached : Reaches minuteEvaluator laterEvaluator := by
  refine .step (.step .start trivial) ?_
  change (minuteEvaluator.perform _).setting.currentTime.isSome = true
  decide +kernel

/-- The half is remembered, and given as the answer to two other formulas that
become the same text. -/
theorem evaluated_eq_anew_laterEvaluator :
    laterEvaluator.memo.results.contains "NOW() / 2" = true ∧
    (laterEvaluator.evaluate "= NOW() / 2").1 = (laterEvaluator.anew.evaluate "= NOW() / 2").1 ∧
    (laterEvaluator.evaluateFrom (fun _ => some (.number 2)) "NOW() / n").1 =
      (laterEvaluator.anew.evaluateFrom (fun _ => some (.number 2)) "NOW() / n").1 := by
  obtain ⟨own, other⟩ := Reaches.evaluated_eq_anew laterEvaluator_reached
  exact ⟨by decide +kernel, own _ (by decide +kernel), other _ _ (by decide +kernel)⟩

end Evaluator

end FormulaSheet
