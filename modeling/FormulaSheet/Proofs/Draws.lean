import FormulaSheet.Evaluator
import FormulaSheet.Proofs.Steps

/-!
# Accounting for random draws

Whether a formula drew random numbers decides whether its result may be
remembered, so draws are accounted for: in every run of the evaluator the
count of draws never goes down, and a run that left the count alone would have
come to the same outcome from any source, which it leaves as it was.

* `Accounted` — the property of a run; it is kept by `bind` and `tryCatch`.
* `Setting.accounted_call`, `Setting.accounted_reduce` — every call and every
  reduction of a text has it.
* `Setting.Steady` — a text comes to an outcome without a draw, whatever the
  source; `Setting.steady_of_drawn` gets it from a single run.
-/

namespace FormulaSheet

/-- The outcome of a run and the source that it leaves. -/
def Run.from {α : Type} (m : Run α) (r : RandomSource) : Except FormulaError α × RandomSource :=
  m.run.run r

namespace Run

variable {α β : Type}

@[simp] theorem from_pure (a : α) (r : RandomSource) :
    Run.from (pure a) r = (.ok a, r) := rfl

@[simp] theorem from_throw (e : FormulaError) (r : RandomSource) :
    Run.from (throw e : Run α) r = (.error e, r) := rfl

/-- A run goes on from the source that the run before it leaves. -/
theorem from_bind (m : Run α) (f : α → Run β) (r : RandomSource) :
    Run.from (m >>= f) r =
      match Run.from m r with
      | (.ok a, r) => Run.from (f a) r
      | (.error e, r) => (.error e, r) := by
  rcases h : Run.from m r with ⟨result, after⟩
  unfold Run.from at h ⊢
  rw [ExceptT.run_bind, StateT.run_bind, h]
  cases result <;> rfl

/-- So does a run that takes up a failure. -/
theorem from_tryCatch (m : Run α) (f : FormulaError → Run α) (r : RandomSource) :
    Run.from (tryCatch m f) r =
      match Run.from m r with
      | (.ok a, r) => (.ok a, r)
      | (.error e, r) => Run.from (f e) r := by
  rcases h : Run.from m r with ⟨result, after⟩
  have hm : m r = (result, after) := h
  simp only [Run.from, tryCatch, tryCatchThe, MonadExceptOf.tryCatch, ExceptT.tryCatch,
    ExceptT.run, ExceptT.mk, StateT.run, bind, StateT.bind, hm]
  cases result <;> rfl

/-- A run that succeeds goes on with its value. -/
theorem from_bind_ok {m : Run α} {f : α → Run β} {r s : RandomSource} {a : α}
    (h : Run.from m r = (.ok a, s)) : Run.from (m >>= f) r = Run.from (f a) s := by
  rw [from_bind, h]

/-- A run that fails stops there. -/
theorem from_bind_error {m : Run α} {f : α → Run β} {r s : RandomSource} {e : FormulaError}
    (h : Run.from m r = (.error e, s)) : Run.from (m >>= f) r = (.error e, s) := by
  rw [from_bind, h]

/-- The result is mapped, and the source is as it was left. -/
theorem from_map {m : Run α} {f : α → β} {r s : RandomSource} {out : Except FormulaError α}
    (h : Run.from m r = (out, s)) : Run.from (f <$> m) r = (out.map f, s) := by
  rw [map_eq_pure_bind, from_bind, h]
  cases out <;> rfl

end Run

/-- Draws are accounted for: the count never goes down, and a run that leaves
it alone comes to the same outcome from any source and leaves that source. -/
structure Accounted {α : Type} (m : Run α) : Prop where
  le_drawn : ∀ r, r.drawn ≤ (Run.from m r).2.drawn
  steady : ∀ r, (Run.from m r).2.drawn = r.drawn → ∀ r', Run.from m r' = ((Run.from m r).1, r')

namespace Accounted

variable {α β : Type}

/-- What draws nothing is accounted for. -/
protected theorem pure (a : α) : Accounted (pure a : Run α) :=
  ⟨fun _ => Nat.le_refl _, fun _ _ _ => rfl⟩

/-- So is a failure. -/
protected theorem throw (e : FormulaError) : Accounted (throw e : Run α) :=
  ⟨fun _ => Nat.le_refl _, fun _ _ _ => rfl⟩

/-- Runs one after another are accounted for if each is. -/
protected theorem bind {m : Run α} {f : α → Run β} (hm : Accounted m)
    (hf : ∀ a, Accounted (f a)) : Accounted (m >>= f) := by
  constructor
  · intro r
    have first := hm.le_drawn r
    rw [Run.from_bind]
    rcases h : Run.from m r with ⟨result, after⟩
    rw [h] at first
    cases result with
    | error e => exact first
    | ok a => exact Nat.le_trans first ((hf a).le_drawn after)
  · intro r quiet r'
    have first := hm.le_drawn r
    rcases h : Run.from m r with ⟨result, after⟩
    rw [Run.from_bind, h] at quiet
    rw [h] at first
    cases result with
    | error e =>
      have same := hm.steady r (by rw [h]; exact quiet) r'
      rw [h] at same
      rw [Run.from_bind_error h, Run.from_bind_error same]
    | ok a =>
      -- the first part cannot have drawn, since the second never gives draws back
      have second := (hf a).le_drawn after
      have count : after.drawn = r.drawn := Nat.le_antisymm (quiet ▸ second) first
      have same := hm.steady r (by rw [h]; exact count) r'
      rw [h] at same
      have rest := (hf a).steady after (by rw [count]; exact quiet) r'
      rw [Run.from_bind_ok h, Run.from_bind_ok same, rest]

/-- So is a run whose result is mapped. -/
protected theorem map {m : Run α} (hm : Accounted m) (f : α → β) : Accounted (f <$> m) := by
  rw [map_eq_pure_bind]
  exact hm.bind fun a => .pure (f a)

/-- So is a run that another takes up where it fails. -/
protected theorem tryCatch {m : Run α} {f : FormulaError → Run α} (hm : Accounted m)
    (hf : ∀ e, Accounted (f e)) : Accounted (tryCatch m f) := by
  constructor
  · intro r
    have first := hm.le_drawn r
    rw [Run.from_tryCatch]
    rcases h : Run.from m r with ⟨result, after⟩
    rw [h] at first
    cases result with
    | ok a => exact first
    | error e => exact Nat.le_trans first ((hf e).le_drawn after)
  · intro r quiet r'
    have first := hm.le_drawn r
    rcases h : Run.from m r with ⟨result, after⟩
    rw [Run.from_tryCatch, h] at quiet
    rw [h] at first
    cases result with
    | ok a =>
      have same := hm.steady r (by rw [h]; exact quiet) r'
      rw [h] at same
      rw [Run.from_tryCatch, Run.from_tryCatch, h, same]
    | error e =>
      have second := (hf e).le_drawn after
      have count : after.drawn = r.drawn := Nat.le_antisymm (quiet ▸ second) first
      have same := hm.steady r (by rw [h]; exact count) r'
      rw [h] at same
      have rest := (hf e).steady after (by rw [count]; exact quiet) r'
      rw [Run.from_tryCatch, Run.from_tryCatch, h, same]
      exact rest

/-- A draw counts. -/
protected theorem drawNumber (host : Host) : Accounted (drawNumber host) := by
  have count : ∀ r, (Run.from (FormulaSheet.drawNumber host) r).2.drawn = r.drawn + 1 :=
    fun r => RandomSource.drawn_next host r
  constructor
  · intro r
    rw [count]
    exact Nat.le_succ _
  · intro r quiet
    rw [count] at quiet
    omega

/-- So are runs for the elements of a list. -/
protected theorem mapM {f : α → Run β} (hf : ∀ a, Accounted (f a)) (as : List α) :
    Accounted (as.mapM f) := by
  induction as with
  | nil => exact .pure []
  | cons a as ih =>
    rw [List.mapM_cons]
    exact (hf a).bind fun b => ih.bind fun bs => .pure (b :: bs)

end Accounted

/-- Every call that the caller makes is accounted for. -/
abbrev AccountedCaller (call : Caller) : Prop := ∀ name args, Accounted (call name args)

/-- Items are accounted for if each is. -/
theorem Expr.accounted_evaluateItems {call : Caller} {scope : Scope} {es : List Expr}
    (h : ∀ e ∈ es, Accounted (e.evaluate call scope)) :
    Accounted (evaluateItems call scope [] es) := by
  induction es with
  | nil => exact .pure _
  | cons e es ih =>
    obtain ⟨first, others⟩ := List.forall_mem_cons.mp h
    rw [evaluateItems_cons]
    exact first.bind fun v => (ih others).map _

/-- A tree is accounted for if its calls are. -/
theorem Expr.accounted_evaluate {call : Caller} (hcall : AccountedCaller call) (scope : Scope)
    (e : Expr) : Accounted (e.evaluate call scope) := by
  induction e using stepInduction with
  | literal v => exact .pure v
  | name s =>
    unfold evaluate
    split
    · exact .pure _
    · exact .throw _
  | array items ih =>
    rw [evaluate_array]
    exact (accounted_evaluateItems ih).map _
  | object fields ih =>
    rw [evaluate_object]
    exact (accounted_evaluateItems ih).map _
  | unary op e ih =>
    rw [evaluate_unary]
    exact ih.map _
  | binary op l r ihl ihr =>
    rw [evaluate_binary]
    exact ihl.bind fun v => ihr.map _
  | choice e c next choice condition chosen =>
    rw [evaluate_of_choice? call scope choice]
    refine condition.bind fun v => ?_
    cases goes : next v with
    | inl w => exact .pure w
    | inr e' => exact chosen v e' goes
  | noCondition f conditional =>
    rw [evaluate_noCondition call scope conditional]
    exact .pure _
  | call f args plain ih =>
    rw [evaluate_call call scope plain]
    exact (accounted_evaluateItems ih).bind fun vs => hcall f vs

/-- So is a built-in function, which may call others. -/
theorem Builtin.accounted_answer (s : Setting) {call : Caller} (hcall : AccountedCaller call)
    (args : List Value) (b : Builtin) : Accounted (b.answer s call args) := by
  cases b with
  | plain p => exact .pure _
  | now => exact .pure _
  | timeSince =>
    unfold Builtin.answer
    dsimp only
    split <;> exact .pure _
  | random => exact (Accounted.drawNumber s.host).bind fun _ => .pure _
  | randomInteger =>
    unfold Builtin.answer
    dsimp only
    split
    · exact .pure _
    · exact (hcall "RANDOM" []).bind fun _ => .pure _
  | avg => exact (hcall "AVERAGE" args).bind fun _ => .pure _

/-- A function of the host draws what it asks for and what its calls draw. -/
theorem Reply.accounted_run (s : Setting) {call : Caller} (hcall : AccountedCaller call)
    (reply : Reply) : Accounted (reply.run s call) := by
  induction reply with
  | answer v => exact .pure _
  | refuse c => exact .pure _
  | time next ih => exact ih _ _
  | draw next ih => exact (Accounted.drawNumber s.host).bind ih
  | call name args next ih => exact (hcall name args).bind ih

/-- A function ends its answer without a draw. -/
theorem Callable.accounted_settle (f : Callable) (answer : Except Complaint Value) :
    Accounted (f.settle answer) := by
  cases answer with
  | ok v => exact .pure v
  | error c => exact .throw _

/-- So is every function, whoever defines it. -/
theorem Callable.accounted_run (f : Callable) (s : Setting) {call : Caller}
    (hcall : AccountedCaller call) (args : List Value) : Accounted (f.run s call args) := by
  unfold Callable.run
  split
  · exact (Builtin.accounted_answer s hcall args _).bind f.accounted_settle
  · exact Expr.accounted_evaluate hcall _ _
  · exact (Reply.accounted_run s hcall _).bind f.accounted_settle

namespace Setting

variable (s : Setting)

/-- Every call is accounted for, however deep it may nest. -/
theorem accounted_call (room : Nat) : AccountedCaller (s.call room) := by
  induction room with
  | zero => exact fun name args => .throw _
  | succ room ih =>
    intro name args
    rw [call_succ]
    split
    · exact .throw _
    · exact Callable.accounted_run _ s ih args

/-- What is evaluated with a scope is accounted for. -/
theorem accounted_evaluate (scope : Scope) (e : Expr) : Accounted (s.evaluate scope e) :=
  Expr.accounted_evaluate (s.accounted_call maxCallDepth) scope e

/-- So is the text of an argument. -/
theorem accounted_argument (segment : List Char) : Accounted (s.argument segment) := by
  unfold Setting.argument
  split
  · exact .pure _
  · split
    · exact .pure _
    · exact (s.accounted_evaluate _ _).tryCatch fun _ => .pure _

/-- So is one step in which a text is resolved. -/
theorem accounted_resolveOne (text : List Char) : Accounted (s.resolveOne text) := by
  unfold Setting.resolveOne
  split
  · exact .throw _
  · exact .pure _
  · exact (Accounted.mapM s.accounted_argument _).bind fun args =>
      (s.accounted_call _ _ args).bind fun v => .pure _

/-- So are as many steps as there is room for. -/
theorem accounted_resolveFrom (room : Nat) (text : List Char) :
    Accounted (s.resolveFrom room text) := by
  induction room generalizing text with
  | zero => exact .pure _
  | succ room ih =>
    unfold Setting.resolveFrom
    refine (s.accounted_resolveOne text).bind fun next => ?_
    cases next with
    | none => exact .pure _
    | some text => exact ih text

/-- So is what is evaluated in the end. -/
theorem accounted_finish (text : List Char) : Accounted (s.finish text) := by
  unfold Setting.finish
  split
  · exact .pure _
  · dsimp only
    split
    · exact .throw _
    · exact (s.accounted_evaluate _ _).tryCatch fun _ => .throw _

/-- Reducing a text is accounted for. -/
theorem accounted_reduce (text : List Char) : Accounted (s.reduce text) :=
  (s.accounted_resolveFrom _ text).bind s.accounted_finish

/-- A text comes to an outcome without a draw, from any source. -/
def Steady (text : List Char) (outcome : Outcome) : Prop :=
  ∀ r, Run.from (s.reduce text) r = (outcome, r)

variable {s}

/-- One reduction without a draw shows that a text is steady. -/
theorem steady_of_drawn {text : List Char} {r : RandomSource}
    (quiet : (Run.from (s.reduce text) r).2.drawn = r.drawn) :
    s.Steady text (Run.from (s.reduce text) r).1 :=
  (s.accounted_reduce text).steady r quiet

/-- A steady text has one outcome. -/
theorem Steady.outcome_eq {text : List Char} {outcome : Outcome} (h : s.Steady text outcome)
    (r : RandomSource) : (Run.from (s.reduce text) r).1 = outcome := by
  rw [h r]

/-- A text that is remembered is not reduced again. -/
theorem conclude_of_some {s : Setting} {text : List Char} {m : Memo} {outcome : Outcome}
    (hit : m.results.get? (String.ofList text) = some outcome) :
    s.conclude text m = (outcome, m) := by
  simp only [conclude, hit]

/-- A text that is not remembered is reduced, and remembered from then on. -/
theorem conclude_of_none {s : Setting} {text : List Char} {m : Memo}
    (miss : m.results.get? (String.ofList text) = none) :
    s.conclude text m = ((Run.from (s.reduce text) m.random).1,
      ⟨m.results.insert (String.ofList text) (Run.from (s.reduce text) m.random).1,
        (Run.from (s.reduce text) m.random).2⟩) := by
  simp only [conclude, miss]
  rfl

/-- Concluding leaves no fewer draws. -/
theorem conclude_le_drawn (s : Setting) (text : List Char) (m : Memo) :
    m.random.drawn ≤ (s.conclude text m).2.random.drawn := by
  cases hit : m.results.get? (String.ofList text) with
  | some outcome => exact Nat.le_of_eq (by rw [conclude_of_some hit])
  | none =>
    rw [conclude_of_none hit]
    exact (s.accounted_reduce text).le_drawn m.random

/-- Without a draw concluding leaves the source of random numbers as it was. -/
theorem conclude_random {s : Setting} {text : List Char} {m : Memo}
    (quiet : (s.conclude text m).2.random.drawn = m.random.drawn) :
    (s.conclude text m).2.random = m.random := by
  cases hit : m.results.get? (String.ofList text) with
  | some outcome => rw [conclude_of_some hit]
  | none =>
    rw [conclude_of_none hit] at quiet ⊢
    have steady : s.Steady text (Run.from (s.reduce text) m.random).1 := steady_of_drawn quiet
    exact congrArg Prod.snd (steady m.random)

end Setting

namespace Evaluator

/-- Nothing is remembered from before a change of the context. -/
theorem results_update (e : Evaluator) (u : ContextUpdate) :
    (e.update u).memo.results = .empty := by
  unfold update
  cases u.seed <;> rfl

/-- A new seed takes no draws back. -/
theorem drawn_update (e : Evaluator) (u : ContextUpdate) :
    (e.update u).memo.random.drawn = e.memo.random.drawn := by
  unfold update
  cases u.seed <;> rfl

end Evaluator

end FormulaSheet
