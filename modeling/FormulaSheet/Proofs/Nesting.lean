import FormulaSheet.Proofs.Draws

/-!
# Calls nest within the limit

Functions call one another by names that are looked up when the call is made,
so a formula may call itself through others, and a built-in function may come
back to a defined one that stands in place of the function it asks, as may one
of the host.  Here evaluation is described without a budget, by rules that count how deep a call
is nested and refuse a call beyond the limit, and every call is recorded.

What decreases is, first, the distance from the limit, which a call takes one
from, and then the tree.

* `Setting.Finishes` — the rules;
* `Setting.exists_finishes` — every task finishes, whatever is registered;
* `Setting.Finishes.run_eq` — the evaluator comes to what the rules say;
* `Setting.Finishes.refused_iff` — a call that is refused is the outcome of
  everything around it, and nothing else has this outcome;
* `Setting.finishes_within_limit` — all of it.
-/

namespace FormulaSheet

theorem Except.map_eq_error_iff {ε α β : Type} {f : α → β} {x : Except ε α} {e : ε} :
    x.map f = .error e ↔ x = .error e := by
  cases x <;> simp [Except.map]

/-- What is to be evaluated. -/
inductive Task where
  | tree (scope : Scope) (e : Expr)
  /-- Trees one after another, up to the first that fails. -/
  | trees (scope : Scope) (es : List Expr)
  | call (name : String) (args : List Value)
  /-- What is left of a function of the host. -/
  | host (reply : Reply)

namespace Task

/-- What a task that succeeds comes to. -/
abbrev Answer : Task → Type
  | tree _ _ => Value
  | trees _ _ => List Value
  | call _ _ => Value
  | host _ => Except Complaint Value

/-- A task carried out within `depth` calls, as the evaluator does it. -/
def run (s : Setting) (depth : Nat) : (task : Task) → Run task.Answer
  | tree scope e => e.evaluate (s.call (maxCallDepth - depth)) scope
  | trees scope es => Expr.evaluateItems (s.call (maxCallDepth - depth)) scope [] es
  | call name args => s.call (maxCallDepth - depth) name args
  | host reply => reply.run s (s.call (maxCallDepth - depth))

/-- Outside of any call a tree is evaluated as ever. -/
example (s : Setting) (scope : Scope) (e : Expr) :
    (tree scope e).run s 0 = s.evaluate scope e := rfl

end Task

/-- What happens to a call.  Its level counts the calls that it is nested in and
itself. -/
inductive CallEvent where
  | made (level : Nat)
  /-- A call beyond the limit is refused before its function is looked up. -/
  | refused (level : Nat)
deriving DecidableEq

/-- A call that is made is nested more deeply than `depth` and within the limit;
one that is refused is the first beyond it. -/
def CallEvent.Fits (depth : Nat) : CallEvent → Prop
  | made level => depth < level ∧ level ≤ maxCallDepth
  | refused level => level = max depth maxCallDepth + 1

/-- What fits a deeper place fits this one. -/
theorem CallEvent.Fits.of_succ {depth : Nat} {e : CallEvent} (within : depth < maxCallDepth)
    (h : e.Fits (depth + 1)) : e.Fits depth := by
  cases e with
  | made level => exact ⟨Nat.lt_of_succ_lt h.1, h.2⟩
  | refused level =>
      rw [Fits, Nat.max_eq_right within] at h
      rwa [Fits, Nat.max_eq_right (Nat.le_of_lt within)]

/-- The outcome of a function whose answer has come to `out`: a complaint becomes
an error in its name. -/
def Callable.settled (f : Callable) (out : Except FormulaError (Except Complaint Value)) :
    Except FormulaError Value :=
  out.bind fun answer => answer.mapError (.function f.name)

theorem Callable.from_settle (f : Callable) {m : Run (Except Complaint Value)}
    {r r' : RandomSource} {out : Except FormulaError (Except Complaint Value)}
    (h : Run.from m r = (out, r')) : Run.from (m >>= f.settle) r = (f.settled out, r') := by
  rw [Run.from_bind, h]
  rcases out with _ | _ | _ <;> rfl

/-- No complaint is the error of a call beyond the limit. -/
theorem Callable.settled_eq_limit_iff {f : Callable} {n : Nat}
    {out : Except FormulaError (Except Complaint Value)} :
    f.settled out = .error (.callDepthExceeded n) ↔ out = .error (.callDepthExceeded n) := by
  rcases out with e | c | v
  · change Except.error e = _ ↔ _
    simp
  · change Except.error (FormulaError.function f.name c) = _ ↔ _
    simp
  · change Except.ok v = _ ↔ _
    simp

namespace Setting

variable {s : Setting}

/-- `s.Finishes depth task r outcome r' events`: within `depth` calls a task
comes to an outcome from a source of random numbers, which it leaves as `r'`,
and these are the calls that it makes. -/
inductive Finishes (s : Setting) : (depth : Nat) → (task : Task) → RandomSource →
    Except FormulaError task.Answer → RandomSource → List CallEvent → Prop
  | literal {depth scope v r} : Finishes s depth (.tree scope (.literal v)) r (.ok v) r []
  | bound {depth scope x v r} : scope.get? x = some v →
      Finishes s depth (.tree scope (.name x)) r (.ok v) r []
  | unbound {depth scope x r} : scope.get? x = none →
      Finishes s depth (.tree scope (.name x)) r (.error (.undefinedName x)) r []
  | array {depth scope items r out r' events} :
      Finishes s depth (.trees scope items) r out r' events →
      Finishes s depth (.tree scope (.array items)) r (out.map .array) r' events
  | object {depth scope fields r out r' events} :
      Finishes s depth (.trees scope (fields.map (·.2))) r out r' events →
      Finishes s depth (.tree scope (.object fields)) r
        (out.map fun vs => .object (Entries.ofList ((fields.map (·.1)).zip vs))) r' events
  | unary {depth scope op e r out r' events} :
      Finishes s depth (.tree scope e) r out r' events →
      Finishes s depth (.tree scope (.unary op e)) r (out.map op.apply) r' events
  | leftFails {depth scope op left right r cause r' events} :
      Finishes s depth (.tree scope left) r (.error cause) r' events →
      Finishes s depth (.tree scope (.binary op left right)) r (.error cause) r' events
  | binary {depth scope op left right r v r' events out r'' more} :
      Finishes s depth (.tree scope left) r (.ok v) r' events →
      Finishes s depth (.tree scope right) r' out r'' more →
      Finishes s depth (.tree scope (.binary op left right)) r
        (out.map (op.apply s.host.nan v)) r'' (events ++ more)
  | conditionFails {depth scope e c next r cause r' events} : e.choice? = some (c, next) →
      Finishes s depth (.tree scope c) r (.error cause) r' events →
      Finishes s depth (.tree scope e) r (.error cause) r' events
  | choseValue {depth scope e c next r v r' events w} : e.choice? = some (c, next) →
      Finishes s depth (.tree scope c) r (.ok v) r' events → next v = .inl w →
      Finishes s depth (.tree scope e) r (.ok w) r' events
  | choseTree {depth scope e c next r v r' events e' r'' more} {out : Except FormulaError Value} :
      e.choice? = some (c, next) → Finishes s depth (.tree scope c) r (.ok v) r' events →
      next v = .inr e' → Finishes s depth (.tree scope e') r' out r'' more →
      Finishes s depth (.tree scope e) r out r'' (events ++ more)
  | noCondition {depth scope f r} : isConditional f = true →
      Finishes s depth (.tree scope (.call f [])) r (.ok .null) r []
  | argumentFails {depth scope f args r cause r' events} : isConditional f = false →
      Finishes s depth (.trees scope args) r (.error cause) r' events →
      Finishes s depth (.tree scope (.call f args)) r (.error cause) r' events
  | call {depth scope f args r vs r' events out r'' more} : isConditional f = false →
      Finishes s depth (.trees scope args) r (.ok vs) r' events →
      Finishes s depth (.call f vs) r' out r'' more →
      Finishes s depth (.tree scope (.call f args)) r out r'' (events ++ more)
  | nil {depth scope r} : Finishes s depth (.trees scope []) r (.ok []) r []
  | headFails {depth scope e es r cause r' events} :
      Finishes s depth (.tree scope e) r (.error cause) r' events →
      Finishes s depth (.trees scope (e :: es)) r (.error cause) r' events
  | cons {depth scope e es r v r' events out r'' more} :
      Finishes s depth (.tree scope e) r (.ok v) r' events →
      Finishes s depth (.trees scope es) r' out r'' more →
      Finishes s depth (.trees scope (e :: es)) r (out.map (v :: ·)) r'' (events ++ more)
  | refused {depth name args r} : maxCallDepth ≤ depth →
      Finishes s depth (.call name args) r (.error (.callDepthExceeded maxCallDepth)) r
        [.refused (depth + 1)]
  | unknown {depth name args r} : depth < maxCallDepth → s.registry.find? name = none →
      Finishes s depth (.call name args) r (.error (.unknownFunction name)) r
        [.made (depth + 1)]
  | formula {depth name args f parameters e r out r' events} : depth < maxCallDepth →
      s.registry.find? name = some f → f.body = .formula parameters e →
      Finishes s (depth + 1) (.tree (Table.ofList (bindParameters parameters args)) e) r out r'
        events →
      Finishes s depth (.call name args) r out r' (.made (depth + 1) :: events)
  | asks {depth name args f b other others finish r out r' events} : depth < maxCallDepth →
      s.registry.find? name = some f → f.body = .builtin b →
      b.asks? s.host.nan args = some (other, others, finish) →
      Finishes s (depth + 1) (.call other others) r out r' events →
      Finishes s depth (.call name args) r (out.map finish) r' (.made (depth + 1) :: events)
  | answers {depth name args f b r answer r'} : depth < maxCallDepth →
      s.registry.find? name = some f → f.body = .builtin b → b.asks? s.host.nan args = none →
      (∀ caller, Run.from (b.answer s caller args) r = (.ok answer, r')) →
      Finishes s depth (.call name args) r (answer.mapError (.function f.name)) r'
        [.made (depth + 1)]
  | host {depth name args f reply r out r' events} : depth < maxCallDepth →
      s.registry.find? name = some f → f.body = .host reply →
      Finishes s (depth + 1) (.host (reply args)) r out r' events →
      Finishes s depth (.call name args) r (f.settled out) r' (.made (depth + 1) :: events)
  | answer {depth v r} : Finishes s depth (.host (.answer v)) r (.ok (.ok v)) r []
  | refuse {depth c r} : Finishes s depth (.host (.refuse c)) r (.ok (.error c)) r []
  | time {depth next r out r' events} :
      Finishes s depth (.host (next s.currentTime s.now)) r out r' events →
      Finishes s depth (.host (.time next)) r out r' events
  | draw {depth next r out r' events} :
      Finishes s depth (.host (next (r.next s.host).1)) (r.next s.host).2 out r' events →
      Finishes s depth (.host (.draw next)) r out r' events
  | ownCallFails {depth name args next r cause r' events} :
      Finishes s depth (.call name args) r (.error cause) r' events →
      Finishes s depth (.host (.call name args next)) r (.error cause) r' events
  | ownCall {depth name args next r v r' events out r'' more} :
      Finishes s depth (.call name args) r (.ok v) r' events →
      Finishes s depth (.host (next v)) r' out r'' more →
      Finishes s depth (.host (.call name args next)) r out r'' (events ++ more)

/-- A call beyond the limit. -/
theorem call_of_le {depth : Nat} (h : maxCallDepth ≤ depth) (name : String)
    (args : List Value) : s.call (maxCallDepth - depth) name args =
      throw (.callDepthExceeded maxCallDepth) := by
  rw [Nat.sub_eq_zero_of_le h, call_zero]

/-- Within the limit there is room for this call and for what is left one level
deeper. -/
theorem room_of_lt {depth : Nat} (h : depth < maxCallDepth) :
    maxCallDepth - depth = maxCallDepth - (depth + 1) + 1 := by
  omega

theorem call_of_none {depth : Nat} (h : depth < maxCallDepth) {name : String}
    (missing : s.registry.find? name = none) (args : List Value) :
    s.call (maxCallDepth - depth) name args = throw (.unknownFunction name) := by
  rw [room_of_lt h, call_succ, missing]

/-- A call within the limit runs its function, which may make calls one level
deeper. -/
theorem call_of_some {depth : Nat} (h : depth < maxCallDepth) {name : String} {f : Callable}
    (found : s.registry.find? name = some f) (args : List Value) :
    s.call (maxCallDepth - depth) name args =
      f.run s (s.call (maxCallDepth - (depth + 1))) args := by
  rw [room_of_lt h, call_succ, found]

end Setting

namespace Builtin

variable {s : Setting} {args : List Value} {b : Builtin}

/-- A built-in function that asks no other has an answer, or complains. -/
theorem answer_of_not_asks (h : b.asks? s.host.nan args = none) (r : RandomSource) :
    ∃ answer r', ∀ call, Run.from (b.answer s call args) r = (.ok answer, r') := by
  cases b with
  | plain p => exact ⟨_, _, fun _ => rfl⟩
  | now => exact ⟨_, _, fun _ => rfl⟩
  | timeSince =>
      simp only [answer]
      split <;> exact ⟨_, _, fun _ => rfl⟩
  | random => exact ⟨_, _, fun _ => rfl⟩
  | randomInteger =>
      simp only [asks?] at h
      split at h
      · rename_i empty
        simp only [answer, empty]
        exact ⟨_, _, fun _ => rfl⟩
      · cases h
  | avg => cases h

end Builtin

namespace Setting

variable {s : Setting} {depth : Nat} {task : Task} {r r' : RandomSource}
variable {out : Except FormulaError task.Answer} {events : List CallEvent}

/-- **The evaluator comes to what the rules say.** -/
theorem Finishes.run_eq (h : s.Finishes depth task r out r' events) :
    Run.from (task.run s depth) r = (out, r') := by
  induction h with
  | literal | nil => rfl
  | bound found | unbound found =>
      rw [Task.run, Expr.evaluate, found]
      rfl
  | array _ ih =>
      rw [Task.run, Expr.evaluate_array]
      exact Run.from_map ih
  | object _ ih =>
      rw [Task.run, Expr.evaluate_object]
      exact Run.from_map ih
  | unary _ ih =>
      rw [Task.run, Expr.evaluate_unary]
      exact Run.from_map ih
  | leftFails _ ih =>
      rw [Task.run, Expr.evaluate_binary]
      exact Run.from_bind_error ih
  | binary _ _ ihl ihr =>
      rw [Task.run, Expr.evaluate_binary, nan_call]
      exact (Run.from_bind_ok ihl).trans (Run.from_map ihr)
  | conditionFails choice _ ih =>
      rw [Task.run, Expr.evaluate_of_choice? _ _ choice]
      exact Run.from_bind_error ih
  | choseValue choice _ chosen ih =>
      rw [Task.run, Expr.evaluate_of_choice? _ _ choice]
      refine (Run.from_bind_ok ih).trans ?_
      rw [chosen]
      rfl
  | choseTree choice _ chosen _ ih ihChosen =>
      rw [Task.run, Expr.evaluate_of_choice? _ _ choice]
      refine (Run.from_bind_ok ih).trans ?_
      rw [chosen]
      exact ihChosen
  | noCondition conditional =>
      rw [Task.run, Expr.evaluate_noCondition _ _ conditional]
      rfl
  | argumentFails plain _ ih =>
      rw [Task.run, Expr.evaluate_call _ _ plain]
      exact Run.from_bind_error ih
  | call plain _ _ ih ihCall =>
      rw [Task.run, Expr.evaluate_call _ _ plain]
      exact (Run.from_bind_ok ih).trans ihCall
  | headFails _ ih =>
      rw [Task.run, Expr.evaluateItems_cons]
      exact Run.from_bind_error ih
  | cons _ _ ih ihTail =>
      rw [Task.run, Expr.evaluateItems_cons]
      exact (Run.from_bind_ok ih).trans (Run.from_map ihTail)
  | refused beyond =>
      rw [Task.run, call_of_le beyond]
      rfl
  | unknown within missing =>
      rw [Task.run, call_of_none within missing]
      rfl
  | formula within found body _ ih =>
      rw [Task.run, call_of_some within found]
      simp only [Callable.run, body]
      exact ih
  | asks within found body asked _ ih =>
      rw [Task.run, call_of_some within found]
      simp only [Callable.run, body, Builtin.answer_of_asks? asked, bind_map_left, Callable.settle]
      rw [bind_pure_comp]
      exact Run.from_map ih
  | @answers _ _ _ f _ _ answer _ within found body _ own =>
      rw [Task.run, call_of_some within found]
      simp only [Callable.run, body]
      rw [Run.from_bind_ok (own _)]
      cases answer <;> rfl
  | @host _ _ _ f _ _ _ _ _ within found body _ ih =>
      rw [Task.run, call_of_some within found]
      simp only [Callable.run, body]
      exact f.from_settle ih
  | answer | refuse => rfl
  | time _ ih => exact ih
  | draw _ ih => exact ih
  | ownCallFails _ ih => exact Run.from_bind_error ih
  | ownCall _ _ ih ihNext => exact (Run.from_bind_ok ih).trans ihNext

/-- Calls that are made are nested more deeply than the task, and within the
limit; those that are refused are beyond it. -/
theorem Finishes.fits (h : s.Finishes depth task r out r' events) :
    ∀ e ∈ events, e.Fits depth := by
  induction h with
  | array _ ih | object _ ih | unary _ ih | leftFails _ ih | conditionFails _ _ ih
  | choseValue _ _ _ ih | argumentFails _ _ ih | headFails _ ih | time _ ih | draw _ ih
  | ownCallFails _ ih => exact ih
  | binary _ _ ih ihMore | choseTree _ _ _ _ ih ihMore | call _ _ _ ih ihMore
  | cons _ _ ih ihMore | ownCall _ _ ih ihMore => exact List.forall_mem_append.mpr ⟨ih, ihMore⟩
  | refused beyond =>
      rw [List.forall_mem_singleton, CallEvent.Fits, Nat.max_eq_left beyond]
  | unknown within | answers within =>
      rw [List.forall_mem_singleton]
      exact ⟨Nat.lt_succ_self _, within⟩
  | formula within _ _ _ ih | asks within _ _ _ _ ih | host within _ _ _ ih =>
      rw [List.forall_mem_cons]
      exact ⟨⟨Nat.lt_succ_self _, within⟩, fun e he => (ih e he).of_succ within⟩
  | _ => exact List.forall_mem_nil _

/-- **A refused call is the outcome of everything around it**, and there is no
such outcome without a refused call. -/
theorem Finishes.refused_iff (h : s.Finishes depth task r out r' events) :
    (∃ n, .refused n ∈ events) ↔ out = .error (.callDepthExceeded maxCallDepth) := by
  induction h with
  | array _ ih | object _ ih | unary _ ih => rwa [Except.map_eq_error_iff]
  | leftFails _ ih | conditionFails _ _ ih | argumentFails _ _ ih | headFails _ ih
  | ownCallFails _ ih =>
      simpa only [Except.error.injEq] using ih
  | choseValue _ _ _ ih => simpa using ih
  | binary _ _ ih ihMore | cons _ _ ih ihMore =>
      rw [Except.map_eq_error_iff, ← ihMore]
      simp only [reduceCtorEq, iff_false, not_exists] at ih
      simp [ih]
  | choseTree _ _ _ _ ih ihMore | call _ _ _ ih ihMore | ownCall _ _ ih ihMore =>
      rw [← ihMore]
      simp only [reduceCtorEq, iff_false, not_exists] at ih
      simp [ih]
  | refused => simp
  | formula _ _ _ _ ih => simpa using ih
  | asks _ _ _ _ _ ih =>
      rw [Except.map_eq_error_iff]
      simpa using ih
  | @answers _ _ _ _ _ _ answer =>
      refine iff_of_false (by simp) fun h => ?_
      cases answer <;> cases h
  | host _ _ _ _ ih =>
      rw [Callable.settled_eq_limit_iff]
      simpa using ih
  | time _ ih | draw _ ih => exact ih
  | _ => simp

section Existence

/-- A task finishes. -/
def Ends (s : Setting) (depth : Nat) (task : Task) (r : RandomSource) : Prop :=
  ∃ out r' events, s.Finishes depth task r out r' events

/-- Trees finish one after another. -/
theorem ends_trees {scope : Scope} {es : List Expr}
    (h : ∀ e ∈ es, ∀ r, s.Ends depth (.tree scope e) r) :
    ∀ r, s.Ends depth (.trees scope es) r := by
  induction es with
  | nil => exact fun r => ⟨_, _, _, .nil⟩
  | cons e es ih =>
      obtain ⟨first, others⟩ := List.forall_mem_cons.mp h
      intro r
      obtain ⟨cause | v, r', events, here⟩ := first r
      · exact ⟨_, _, _, .headFails here⟩
      · obtain ⟨out, r'', more, there⟩ := ih others r'
        exact ⟨_, _, _, .cons here there⟩

/-- A tree finishes if calls do. -/
theorem ends_tree (calls : ∀ name args r, s.Ends depth (.call name args) r) (scope : Scope)
    (e : Expr) : ∀ r, s.Ends depth (.tree scope e) r := by
  induction e using Expr.stepInduction with
  | literal v => exact fun r => ⟨_, _, _, .literal⟩
  | name x =>
      intro r
      cases found : scope.get? x with
      | none => exact ⟨_, _, _, .unbound found⟩
      | some v => exact ⟨_, _, _, .bound found⟩
  | array items ih =>
      intro r
      obtain ⟨out, r', events, here⟩ := ends_trees ih r
      exact ⟨_, _, _, .array here⟩
  | object fields ih =>
      intro r
      obtain ⟨out, r', events, here⟩ := ends_trees ih r
      exact ⟨_, _, _, .object here⟩
  | unary op e ih =>
      intro r
      obtain ⟨out, r', events, here⟩ := ih r
      exact ⟨_, _, _, .unary here⟩
  | binary op left right ihl ihr =>
      intro r
      obtain ⟨cause | v, r', events, here⟩ := ihl r
      · exact ⟨_, _, _, .leftFails here⟩
      · obtain ⟨out, r'', more, there⟩ := ihr r'
        exact ⟨_, _, _, .binary here there⟩
  | choice e c next choice condition chosen =>
      intro r
      obtain ⟨cause | v, r', events, here⟩ := condition r
      · exact ⟨_, _, _, .conditionFails choice here⟩
      · cases goes : next v with
        | inl w => exact ⟨_, _, _, .choseValue choice here goes⟩
        | inr e' =>
            obtain ⟨out, r'', more, there⟩ := chosen v e' goes r'
            exact ⟨_, _, _, .choseTree choice here goes there⟩
  | noCondition f conditional => exact fun r => ⟨_, _, _, .noCondition conditional⟩
  | call f args plain ih =>
      intro r
      obtain ⟨cause | vs, r', events, here⟩ := ends_trees ih r
      · exact ⟨_, _, _, .argumentFails plain here⟩
      · obtain ⟨out, r'', more, there⟩ := calls f vs r'
        exact ⟨_, _, _, .call plain here there⟩

/-- A function of the host finishes if calls do. -/
theorem ends_host (calls : ∀ name args r, s.Ends depth (.call name args) r) (reply : Reply) :
    ∀ r, s.Ends depth (.host reply) r := by
  induction reply with
  | answer v => exact fun r => ⟨_, _, _, .answer⟩
  | refuse c => exact fun r => ⟨_, _, _, .refuse⟩
  | time next ih =>
      intro r
      obtain ⟨out, r', events, here⟩ := ih s.currentTime s.now r
      exact ⟨_, _, _, .time here⟩
  | draw next ih =>
      intro r
      obtain ⟨out, r', events, here⟩ := ih (r.next s.host).1 (r.next s.host).2
      exact ⟨_, _, _, .draw here⟩
  | call name args next ih =>
      intro r
      obtain ⟨cause | v, r', events, here⟩ := calls name args r
      · exact ⟨_, _, _, .ownCallFails here⟩
      · obtain ⟨out, r'', more, there⟩ := ih v r'
        exact ⟨_, _, _, .ownCall here there⟩

/-- A call within the limit finishes if everything one level deeper does. -/
theorem ends_call (within : depth < maxCallDepth)
    (deeper : ∀ task r, s.Ends (depth + 1) task r) (name : String) (args : List Value)
    (r : RandomSource) : s.Ends depth (.call name args) r := by
  cases found : s.registry.find? name with
  | none => exact ⟨_, _, _, .unknown within found⟩
  | some f =>
      cases body : f.body with
      | formula parameters e =>
          obtain ⟨out, r', events, here⟩ := deeper (.tree _ e) r
          exact ⟨_, _, _, .formula within found body here⟩
      | builtin b =>
          cases asked : b.asks? s.host.nan args with
          | none =>
              obtain ⟨answer, r', own⟩ := b.answer_of_not_asks asked r
              exact ⟨_, _, _, .answers within found body asked own⟩
          | some question =>
              obtain ⟨other, others, finish⟩ := question
              obtain ⟨out, r', events, here⟩ := deeper (.call other others) r
              exact ⟨_, _, _, .asks within found body asked here⟩
      | host reply =>
          obtain ⟨out, r', events, here⟩ := deeper (.host (reply args)) r
          exact ⟨_, _, _, .host within found body here⟩

/-- Every task finishes if calls do. -/
theorem ends_of_calls (calls : ∀ name args r, s.Ends depth (.call name args) r) :
    ∀ task r, s.Ends depth task r
  | .tree scope e => ends_tree calls scope e
  | .trees scope _ => ends_trees fun e _ => ends_tree calls scope e
  | .call name args => calls name args
  | .host reply => ends_host calls reply

/-- **Every task finishes, whatever is registered.**  The induction is on the
distance from the limit, and for one distance on the tree. -/
theorem exists_finishes (s : Setting) (depth : Nat) (task : Task) (r : RandomSource) :
    s.Ends depth task r := by
  have go : ∀ room depth, maxCallDepth - depth = room → ∀ task r, s.Ends depth task r := by
    intro room
    induction room with
    | zero =>
        intro depth distance
        have beyond : maxCallDepth ≤ depth := Nat.le_of_sub_eq_zero distance
        exact ends_of_calls fun name args r => ⟨_, _, _, .refused beyond⟩
    | succ room ih =>
        intro depth distance
        exact ends_of_calls (ends_call (by omega) (ih (depth + 1) (by omega)))
  exact go _ depth rfl task r

end Existence

/-- **Calls nest within the limit.**  Whatever is registered under whatever
names, functions of the host among it, every tree, list of trees and call
finishes, within any number of calls.  However it finishes, the evaluator comes
to the same and leaves the same source of random numbers; the calls made on the
way are nested at most 128 deep; only the first call beyond that is refused; and
if one is refused that is the outcome of the whole, which nothing else has. -/
theorem finishes_within_limit (s : Setting) (depth : Nat) (task : Task) (r : RandomSource) :
    (∃ out r' events, s.Finishes depth task r out r' events) ∧
    ∀ out r' events, s.Finishes depth task r out r' events →
      Run.from (task.run s depth) r = (out, r') ∧
      (∀ n, .made n ∈ events → depth < n ∧ n ≤ 128) ∧
      (∀ n, .refused n ∈ events → n = max depth 128 + 1) ∧
      ((∃ n, .refused n ∈ events) ↔ out = .error (.callDepthExceeded 128)) :=
  ⟨exists_finishes s depth task r, fun _ _ _ h =>
    ⟨h.run_eq, fun _ hn => h.fits _ hn, fun _ hn => h.fits _ hn, h.refused_iff⟩⟩

/-- A definition in the place of `AVERAGE` and the function `AVG` call each
other until the limit is reached. -/
example :
    let average : Callable := ⟨⟨"AVERAGE", .custom, "", [], .any⟩,
      .formula ["x"] (.call "avg" [.name "x"])⟩
    let s : Setting := ⟨Registry.builtins.register average, none, .still⟩
    let e : Expr := .conditional (.call "avg" [.literal (.bool true)]) (.literal .null)
      (.literal .null)
    (Evaluated.mk (Run.from (s.evaluate .empty e) (.ofSeed none)).1 []).message? =
      some "Maximum call depth of 128 exceeded" := by
  decide +kernel

end Setting

end FormulaSheet
