import FormulaSheet.Proofs.Eager
import FormulaSheet.Proofs.Nesting

/-!
# Calls farther from the limit

Where more calls may be nested, evaluation comes to the same, unless the limit
was reached where fewer may.  The two registries need not be the same either:
what matters is what they have under the names that can be called.

* `Run.SameUnless` — the relation between the two runs, closed under `bind`;
* `Expr.callNames`, `Callable.Calls` — the functions that may be called;
* `Expr.sameUnless_evaluate` — a tree is evaluated as its calls are made;
* `Setting.sameUnless_call` — calls, whatever the room;
* `Task.run_of_deeper` — so a task comes to the same within fewer calls.
-/

namespace FormulaSheet

namespace Run

variable {α β : Type}

/-- The second run comes to what the first does, from any source, unless it ends
in an error that stops it. -/
def SameUnless (stops : FormulaError → Prop) (m m' : Run α) : Prop :=
  ∀ r, Run.from m' r = Run.from m r ∨ ∃ e, stops e ∧ (Run.from m' r).1 = .error e

/-- The error of a call beyond the limit. -/
def limit : FormulaError := .callDepthExceeded maxCallDepth

namespace SameUnless

variable {stops : FormulaError → Prop}

/-- A run comes to what it comes to. -/
protected theorem refl (m : Run α) : SameUnless stops m m := fun _ => .inl rfl

/-- What is stopped is related to anything. -/
protected theorem throw (m : Run α) {e : FormulaError} (h : stops e) :
    SameUnless stops m (throw e) := fun _ => .inr ⟨e, h, rfl⟩

/-- Runs in turn come to the same, unless one of them stops. -/
protected theorem bind {m m' : Run α} {f f' : α → Run β} (h : SameUnless stops m m')
    (hf : ∀ a, SameUnless stops (f a) (f' a)) : SameUnless stops (m >>= f) (m' >>= f') := by
  intro r
  rcases h r with same | ⟨e, he, stopped⟩
  · rcases first : Run.from m r with ⟨result, after⟩
    rw [first] at same
    cases result with
    | error e => exact .inl ((from_bind_error same).trans (from_bind_error first).symm)
    | ok a =>
        rw [from_bind_ok same, from_bind_ok first]
        exact hf a after
  · rcases first : Run.from m' r with ⟨result, after⟩
    rw [first] at stopped
    obtain rfl : result = .error e := stopped
    rw [from_bind_error first]
    exact .inr ⟨e, he, rfl⟩

/-- So does a run whose result is mapped. -/
protected theorem map {m m' : Run α} (h : SameUnless stops m m') (f : α → β) :
    SameUnless stops (f <$> m) (f <$> m') := by
  rw [map_eq_pure_bind, map_eq_pure_bind]
  exact h.bind fun a => .refl _

/-- Where nothing stops a run, the two are the same. -/
protected theorem eq {m m' : Run α} (h : SameUnless (fun _ => False) m m') : m' = m :=
  funext fun r => (h r).resolve_right fun ⟨_, stopped, _⟩ => stopped

/-- So they are short of the limit. -/
theorem from_eq {m m' : Run α} (h : SameUnless (· = limit) m m') {r : RandomSource}
    (short : (Run.from m' r).1 ≠ .error limit) : Run.from m' r = Run.from m r :=
  (h r).resolve_right fun ⟨_, eq, stopped⟩ => short (eq ▸ stopped)

end SameUnless

end Run

namespace Expr

/-- The subterms of items are those of each. -/
theorem mem_itemSubterms_iff {t : Expr} {es : List Expr} :
    t ∈ itemSubterms es ↔ ∃ e ∈ es, t ∈ e.subterms := by
  induction es with
  | nil => simp [itemSubterms]
  | cons e es ih => simp [itemSubterms, ih]

/-- So are those of fields. -/
theorem mem_fieldSubterms_iff {t : Expr} {fs : List (String × Expr)} :
    t ∈ fieldSubterms fs ↔ ∃ e ∈ fs.map (·.2), t ∈ e.subterms := by
  induction fs with
  | nil => simp [fieldSubterms]
  | cons f fs ih => simp [fieldSubterms, ih]

/-- The condition of a tree that chooses is a part of it, and so is whatever may
be chosen. -/
theorem subterms_of_choice? {e c : Expr} {next : Value → Value ⊕ Expr}
    (h : e.choice? = some (c, next)) :
    c.subterms ⊆ e.subterms ∧ ∀ v e', next v = .inr e' → e'.subterms ⊆ e.subterms := by
  cases e with
  | and l r | or l r =>
      cases h
      refine ⟨fun t ht => by simp [subterms, ht], fun v e' goes t ht => ?_⟩
      dsimp only at goes
      split at goes <;> cases goes
      simp [subterms, ht]
  | conditional c y n =>
      cases h
      refine ⟨fun t ht => by simp [subterms, ht], fun v e' goes t ht => ?_⟩
      cases goes
      split at ht <;> simp [subterms, ht]
  | call f args =>
      cases args with
      | nil => cases h
      | cons c branches =>
          rw [choice?] at h
          split at h
          · cases h
            refine ⟨fun t ht => by simp [subterms, itemSubterms, ht], fun v e' goes t ht => ?_⟩
            dsimp only at goes
            split at goes
            · rename_i found
              cases goes
              have among := mem_itemSubterms_iff.mpr ⟨_, List.mem_of_getElem? found, ht⟩
              simp [subterms, itemSubterms, among]
            · cases goes
          · cases h
  | _ => cases h

/-- The names, in capitals, of the functions that a tree calls. -/
def callNames (e : Expr) : List String :=
  e.subterms.filterMap fun
    | .call f _ => some (capitals f)
    | _ => none

/-- The names of calls are those of the subterms that call. -/
theorem mem_callNames_iff {e : Expr} {name : String} :
    name ∈ e.callNames ↔ ∃ f args, .call f args ∈ e.subterms ∧ capitals f = name := by
  rw [callNames, List.mem_filterMap]
  constructor
  · rintro ⟨t, ht, eq⟩
    cases t with
    | call f args => exact ⟨f, args, ht, Option.some.inj eq⟩
    | _ => cases eq
  · rintro ⟨f, args, ht, rfl⟩
    exact ⟨_, ht, rfl⟩

variable {stops : FormulaError → Prop} {call call' : Caller}

/-- Items come to the same unless one of them stops. -/
theorem sameUnless_evaluateItems {scope : Scope} {es : List Expr}
    (h : ∀ e ∈ es, Run.SameUnless stops (e.evaluate call scope) (e.evaluate call' scope)) :
    Run.SameUnless stops (evaluateItems call scope [] es) (evaluateItems call' scope [] es) := by
  induction es with
  | nil => exact .refl _
  | cons e es ih =>
      obtain ⟨first, others⟩ := List.forall_mem_cons.mp h
      rw [evaluateItems_cons, evaluateItems_cons]
      exact first.bind fun v => (ih others).map _

/-- A tree is evaluated as its calls are made. -/
theorem sameUnless_evaluate {P : String → Prop} (nan : call'.nan = call.nan)
    (callers : ∀ f vs, P f → Run.SameUnless stops (call f vs) (call' f vs)) (scope : Scope)
    (e : Expr) (h : ∀ f args, .call f args ∈ e.subterms → P f) :
    Run.SameUnless stops (e.evaluate call scope) (e.evaluate call' scope) := by
  induction e using stepInduction with
  | literal v =>
      rw [evaluate, evaluate]
      exact .refl _
  | name s =>
      rw [evaluate, evaluate]
      exact .refl _
  | array items ih =>
      rw [evaluate_array, evaluate_array]
      refine (sameUnless_evaluateItems fun e he => ih e he fun f args ht => h f args ?_).map _
      exact List.mem_cons_of_mem _ (mem_itemSubterms_iff.mpr ⟨e, he, ht⟩)
  | object fields ih =>
      rw [evaluate_object, evaluate_object]
      refine (sameUnless_evaluateItems fun e he => ih e he fun f args ht => h f args ?_).map _
      exact List.mem_cons_of_mem _ (mem_fieldSubterms_iff.mpr ⟨e, he, ht⟩)
  | unary op e ih =>
      rw [evaluate_unary, evaluate_unary]
      exact (ih fun f args ht => h f args (List.mem_cons_of_mem _ ht)).map _
  | binary op l r ihl ihr =>
      rw [evaluate_binary, evaluate_binary, nan]
      refine (ihl fun f args ht => h f args ?_).bind fun v =>
        (ihr fun f args ht => h f args ?_).map _ <;> simp [subterms, ht]
  | choice e c next chooses ihc ihb =>
      obtain ⟨condition, branches⟩ := subterms_of_choice? chooses
      rw [evaluate_of_choice? _ _ chooses, evaluate_of_choice? _ _ chooses]
      refine (ihc fun f args ht => h f args (condition ht)).bind fun v => ?_
      cases goes : next v with
      | inl w => exact .refl _
      | inr e' => exact ihb v e' goes fun f args ht => h f args (branches v e' goes ht)
  | noCondition f kind =>
      rw [evaluate_noCondition _ _ kind, evaluate_noCondition _ _ kind]
      exact .refl _
  | call f args kind ih =>
      rw [evaluate_call _ _ kind, evaluate_call _ _ kind]
      refine (sameUnless_evaluateItems fun e he => ih e he fun g as ht => h g as ?_).bind fun vs =>
        callers f vs (h f args List.mem_cons_self)
      exact List.mem_cons_of_mem _ (mem_itemSubterms_iff.mpr ⟨e, he, ht⟩)

end Expr

/-- The names of the functions that a built-in function asks. -/
def Builtin.callNames : Builtin → List String
  | randomInteger => ["RANDOM"]
  | avg => ["AVERAGE"]
  | _ => []

/-- The function that a built-in function asks is among them. -/
theorem Builtin.mem_callNames_of_asks? {nan : NanChoice} {b : Builtin} {args others : List Value}
    {other : String} {finish : Value → Value}
    (h : b.asks? nan args = some (other, others, finish)) : capitals other ∈ b.callNames := by
  cases b with
  | randomInteger =>
      simp only [asks?] at h
      split at h
      · cases h
      · cases h
        decide
  | avg =>
      cases h
      decide
  | _ => cases h

/-- A function of the host may go on to call this name, given in capitals. -/
inductive Reply.Calls (name : String) : Reply → Prop
  | here {other : String} {args : List Value} {next : Value → Reply} :
      capitals other = name → Calls name (.call other args next)
  | later {other : String} {args : List Value} {next : Value → Reply} {v : Value} :
      Calls name (next v) → Calls name (.call other args next)
  | time {next : Option Double → Double → Reply} {given : Option Double} {now : Double} :
      Calls name (next given now) → Calls name (.time next)
  | draw {next : Float → Reply} {x : Float} : Calls name (next x) → Calls name (.draw next)

/-- A function may call this name, given in capitals. -/
def Callable.Calls (f : Callable) (name : String) : Prop :=
  match f.body with
  | .builtin b => name ∈ b.callNames
  | .formula _ e => name ∈ e.callNames
  | .host reply => ∃ args, (reply args).Calls name

section Calls

variable {stops : FormulaError → Prop} {s : Setting} {call call' : Caller}

/-- A function of the host does what it does with the answers to its calls. -/
theorem Reply.sameUnless_run {reply : Reply} (callers : ∀ name args, reply.Calls (capitals name) →
      Run.SameUnless stops (call name args) (call' name args)) :
    Run.SameUnless stops (reply.run s call) (reply.run s call') := by
  induction reply with
  | answer v | refuse c => exact .refl _
  | time next ih => exact ih _ _ fun name args h => callers name args (.time h)
  | draw next ih =>
      exact (Run.SameUnless.refl _).bind fun x =>
        ih x fun name args h => callers name args (.draw h)
  | call name args next ih =>
      exact (callers name args (.here rfl)).bind fun v =>
        ih v fun name args h => callers name args (.later h)

/-- A built-in function does what it does with the answer to what it asks. -/
theorem Builtin.sameUnless_answer {b : Builtin} (callers : ∀ name args,
      capitals name ∈ b.callNames → Run.SameUnless stops (call name args) (call' name args))
    (args : List Value) : Run.SameUnless stops (b.answer s call args) (b.answer s call' args) := by
  cases asked : b.asks? s.host.nan args with
  | none =>
      intro r
      obtain ⟨answer, r', own⟩ := b.answer_of_not_asks asked r
      rw [own, own]
      exact .inl rfl
  | some question =>
      obtain ⟨other, others, finish⟩ := question
      rw [Builtin.answer_of_asks? asked, Builtin.answer_of_asks? asked]
      exact (callers other others (Builtin.mem_callNames_of_asks? asked)).map _

/-- What a function does depends on the calls that it makes, where it is supplied
with the same. -/
theorem Callable.sameUnless_run {s' : Setting} (supplied : s'.SuppliesAs s)
    (nan : call'.nan = call.nan) {f : Callable} (callers : ∀ name args, f.Calls (capitals name) →
      Run.SameUnless stops (call name args) (call' name args)) (args : List Value) :
    Run.SameUnless stops (f.run s call args) (f.run s' call' args) := by
  rw [f.run_congr supplied]
  unfold Calls at callers
  unfold run
  cases body : f.body with
  | formula parameters e =>
      rw [body] at callers
      refine Expr.sameUnless_evaluate (P := fun g => capitals g ∈ e.callNames) nan callers _ e ?_
      exact fun g vs ht => Expr.mem_callNames_iff.mpr ⟨g, vs, ht, rfl⟩
  | builtin b =>
      rw [body] at callers
      exact (Builtin.sameUnless_answer callers args).bind fun answer => .refl _
  | host reply =>
      rw [body] at callers
      refine (Reply.sameUnless_run fun name vs h => ?_).bind fun answer => .refl _
      exact callers name vs ⟨args, h⟩

end Calls

namespace Setting

/-- Calls where more may be nested, and where fewer may.  The registries have
the same under every name that can come up. -/
theorem sameUnless_call {s s' : Setting} (supplied : s'.SuppliesAs s) {P : String → Prop}
    (same : ∀ name, P (capitals name) → s'.registry.find? name = s.registry.find? name)
    (closed : ∀ name f, P (capitals name) → s.registry.find? name = some f →
      ∀ other, f.Calls other → P other)
    {room room' : Nat} (le : room' ≤ room) (name : String) (args : List Value)
    (h : P (capitals name)) :
    Run.SameUnless (· = Run.limit) (s.call room name args) (s'.call room' name args) := by
  induction room' generalizing room name args with
  | zero => exact .throw _ rfl
  | succ room' ih =>
      obtain ⟨room, rfl⟩ := Nat.exists_eq_add_of_le' (Nat.le_trans (Nat.succ_pos room') le)
      rw [call_succ, call_succ, same name h]
      cases found : s.registry.find? name with
      | none => exact .refl _
      | some f =>
          have nan : (s'.call room').nan = (s.call room).nan := by
            rw [nan_call, nan_call, supplied.nan]
          exact f.sameUnless_run supplied nan (fun other others calls =>
            ih (Nat.le_of_succ_le_succ le) other others (closed name f h found _ calls)) args

end Setting

namespace Task

/-- A task within fewer calls, and the same task within more. -/
theorem sameUnless_run (s : Setting) {shallow deep : Nat} (le : shallow ≤ deep) (task : Task) :
    Run.SameUnless (· = Run.limit) (task.run s shallow) (task.run s deep) := by
  have calls : ∀ name args, Run.SameUnless (· = Run.limit)
      (s.call (maxCallDepth - shallow) name args) (s.call (maxCallDepth - deep) name args) :=
    fun name args => Setting.sameUnless_call (.of_eq rfl rfl) (P := fun _ => True) (fun _ _ => rfl)
      (fun _ _ _ _ _ _ => trivial) (Nat.sub_le_sub_left le maxCallDepth) name args trivial
  have trees : ∀ scope (e : Expr), Run.SameUnless (· = Run.limit)
      (e.evaluate (s.call (maxCallDepth - shallow)) scope)
      (e.evaluate (s.call (maxCallDepth - deep)) scope) :=
    fun scope e => e.sameUnless_evaluate (by rw [Setting.nan_call, Setting.nan_call])
      (fun f vs _ => calls f vs) scope fun _ _ _ => trivial
  cases task with
  | tree scope e => exact trees scope e
  | trees scope es => exact Expr.sameUnless_evaluateItems fun e _ => trees scope e
  | call name args => exact calls name args
  | host reply => exact Reply.sameUnless_run fun name args _ => calls name args

/-- **The depth of a task changes nothing but the limit.**  What a tree comes to
within many calls, from any scope and any source of random numbers, it comes to
within fewer, with the same value or the same error, and leaves the same source;
only a failure at the limit is no such outcome.  The same goes for trees one
after another, for calls and for functions of the host. -/
theorem run_of_deeper (s : Setting) (task : Task) (r : RandomSource) {shallow deep : Nat}
    (le : shallow ≤ deep)
    (short : (Run.from (task.run s deep) r).1 ≠ .error (.callDepthExceeded maxCallDepth)) :
    Run.from (task.run s shallow) r = Run.from (task.run s deep) r :=
  ((sameUnless_run s le task).from_eq short).symm

/-- A factorial that calls itself, of a number drawn by a function that asks
another: six calls, the sixth of them the last that there is room for. -/
theorem run_of_deeper_factorial :
    let factorial : Callable := ⟨⟨"FACTORIAL", .custom, "", [], .any⟩,
      .formula ["n"] (.call "if" [.binary .less (.name "n") (.literal (.number 2)),
        .literal (.number 1),
        .binary .mul (.name "n")
          (.call "factorial" [.binary .sub (.name "n") (.literal (.number 1))])])⟩
    let s : Setting := ⟨Registry.builtins.register factorial, none, .still⟩
    let task : Task := .tree .empty
      (.call "FACTORIAL" [.call "RANDINT" [.literal (.number 5), .literal (.number 6)]])
    let r : RandomSource := .ofSeed (some 42)
    (Run.from (task.run s 122) r).1 ≠ .error (.callDepthExceeded maxCallDepth) ∧
      Run.from (task.run s 0) r = Run.from (task.run s 122) r ∧
      (Run.from (task.run s 0) r).1.toOption.map Value.toText = some "720" ∧
      (Run.from (task.run s 123) r).1.isOk = false := by
  intro factorial s task r
  have finishes : (Run.from (task.run s 122) r).1.toOption.map Value.toText = some "720" := by
    decide +kernel
  have short : (Run.from (task.run s 122) r).1 ≠ .error (.callDepthExceeded maxCallDepth) := by
    intro limit
    rw [limit] at finishes
    cases finishes
  have same := run_of_deeper s task r (Nat.zero_le 122) short
  refine ⟨short, same, ?_, by decide +kernel⟩
  rw [same]
  exact finishes

end Task

end FormulaSheet
