import FormulaSheet.Expr.Evaluation

/-!
# Evaluation step by step

What evaluation does with a tree is said here in one equation for each kind of
tree.  The trees that choose, four of them and one with several lengths of
arguments, are of one kind: each evaluates a condition, whose value says what it
goes on with.  The accumulators of the evaluator do not appear.

* `Expr.choice?` — the trees that choose;
* `Expr.stepInduction` — induction on trees by these kinds;
* `Expr.evaluateItems_eq`, `Expr.evaluate_object` — items and fields without an
  accumulator;
* `Expr.evaluate_of_choice?` — how a choice is evaluated;
* `Builtin.answer_of_asks?` — how a built-in function asks another;
* `Callable.run_congr` — what a function finds in a setting;
* `Setting.call_zero`, `Setting.call_succ` — how a call is made.
-/

namespace FormulaSheet

/-- What is checked of a result is checked of a value. -/
theorem exists_ok_of_any {ε α : Type} {r : Except ε α} {p : α → Bool}
    (h : r.toOption.any p = true) : ∃ a, r = .ok a ∧ p a = true := by
  cases r with
  | error e => cases h
  | ok a => exact ⟨a, rfl, h⟩

namespace Expr

/-- What holds of a tree if it holds of its parts. -/
@[elab_as_elim]
theorem inductionOn {P : Expr → Prop} (e : Expr) (literal : ∀ v, P (.literal v))
    (name : ∀ s, P (.name s)) (array : ∀ items, (∀ e ∈ items, P e) → P (.array items))
    (object : ∀ fields, (∀ f ∈ fields, P f.2) → P (.object fields))
    (unary : ∀ op e, P e → P (.unary op e))
    (binary : ∀ op l r, P l → P r → P (.binary op l r)) (and : ∀ l r, P l → P r → P (.and l r))
    (or : ∀ l r, P l → P r → P (.or l r))
    (conditional : ∀ c y n, P c → P y → P n → P (.conditional c y n))
    (call : ∀ f args, (∀ e ∈ args, P e) → P (.call f args)) : P e :=
  Expr.rec (motive_1 := P) (motive_2 := fun es => ∀ e ∈ es, P e)
    (motive_3 := fun fs => ∀ f ∈ fs, P f.2) (motive_4 := fun f => P f.2)
    literal name array object unary binary and or conditional call (List.forall_mem_nil _)
    (fun _ _ here more => List.forall_mem_cons.mpr ⟨here, more⟩) (List.forall_mem_nil _)
    (fun _ _ here more => List.forall_mem_cons.mpr ⟨here, more⟩) (fun _ _ here => here) e

/-- A tree that chooses: the tree whose value it depends on, and what it goes on
with, which is a value or another tree.  A missing choice is null. -/
def choice? : Expr → Option (Expr × (Value → Value ⊕ Expr))
  | .and l r => some (l, fun v => if v.isTruthy then .inr r else .inl v)
  | .or l r => some (l, fun v => if v.isTruthy then .inl v else .inr r)
  | .conditional c y n => some (c, fun v => .inr (if v.isTruthy then y else n))
  | .call f (c :: branches) =>
    if isConditional f then
      some (c, fun v =>
        match branches[if v.isTruthy then 0 else 1]? with
        | some e => .inr e
        | none => .inl .null)
    else none
  | _ => none

/-- Induction on trees by what evaluation does with them.  A tree that chooses
goes on with its condition and with whatever may be chosen. -/
@[elab_as_elim]
theorem stepInduction {P : Expr → Prop} (e : Expr) (literal : ∀ v, P (.literal v))
    (name : ∀ s, P (.name s)) (array : ∀ items, (∀ e ∈ items, P e) → P (.array items))
    (object : ∀ fields : List (String × Expr), (∀ e ∈ fields.map (·.2), P e) →
      P (.object fields))
    (unary : ∀ op e, P e → P (.unary op e))
    (binary : ∀ op l r, P l → P r → P (.binary op l r))
    (choice : ∀ e c next, e.choice? = some (c, next) → P c →
      (∀ v e', next v = .inr e' → P e') → P e)
    (noCondition : ∀ f, isConditional f = true → P (.call f []))
    (call : ∀ f args, isConditional f = false → (∀ e ∈ args, P e) → P (.call f args)) : P e := by
  induction e using inductionOn with
  | literal v => exact literal v
  | name s => exact name s
  | array items ih => exact array items ih
  | object fields ih => exact object fields (List.forall_mem_map.mpr ih)
  | unary op e ih => exact unary op e ih
  | binary op l r ihl ihr => exact binary op l r ihl ihr
  | and l r ihl ihr | or l r ihl ihr =>
      refine choice _ l _ rfl ihl fun v e' goes => ?_
      split at goes <;> cases goes
      exact ihr
  | conditional c y n ihc ihy ihn =>
      refine choice _ c _ rfl ihc fun v e' goes => ?_
      cases goes
      split
      · exact ihy
      · exact ihn
  | call f args ih =>
      cases kind : isConditional f with
      | false => exact call f args kind ih
      | true =>
          cases args with
          | nil => exact noCondition f kind
          | cons c branches =>
              obtain ⟨condition, others⟩ := List.forall_mem_cons.mp ih
              refine choice _ c _ (if_pos kind) condition fun v e' goes => ?_
              split at goes
              · rename_i found
                cases goes
                exact others _ (List.mem_of_getElem? found)
              · cases goes

variable (call : Caller) (scope : Scope)

/-- The items before are put in front. -/
theorem evaluateItems_eq (es : List Expr) (out : List Value) :
    evaluateItems call scope out es =
      (out.reverse ++ ·) <$> evaluateItems call scope [] es := by
  induction es generalizing out with
  | nil => simp [evaluateItems]
  | cons e es ih =>
      rw [evaluateItems, evaluateItems, map_bind]
      congr 1
      funext v
      rw [ih (v :: out), ih [v], Functor.map_map]
      simp

/-- Items are evaluated from the first on. -/
theorem evaluateItems_cons (e : Expr) (es : List Expr) :
    evaluateItems call scope [] (e :: es) = evaluate call scope e >>= fun v =>
      (v :: ·) <$> evaluateItems call scope [] es := by
  rw [evaluateItems]
  congr 1
  funext v
  exact evaluateItems_eq call scope es [v]

/-- Fields are filed in turn under their keys. -/
theorem evaluateFields_eq (fields : List (String × Expr)) (out : Entries Value) :
    evaluateFields call scope out fields =
      (fun vs => ((fields.map (·.1)).zip vs).foldl (fun es p => Entries.insert p.1 p.2 es) out) <$>
        evaluateItems call scope [] (fields.map (·.2)) := by
  induction fields generalizing out with
  | nil => simp [evaluateFields, evaluateItems]
  | cons f fields ih =>
      obtain ⟨k, e⟩ := f
      rw [evaluateFields, List.map_cons, List.map_cons, evaluateItems_cons, map_bind]
      congr 1
      funext v
      rw [ih, Functor.map_map]
      rfl

/-- An array is evaluated by its items. -/
theorem evaluate_array (items : List Expr) :
    evaluate call scope (.array items) = .array <$> evaluateItems call scope [] items := by
  rw [evaluate, bind_pure_comp]

/-- An object is evaluated by its fields, and put in the order of keys. -/
theorem evaluate_object (fields : List (String × Expr)) :
    evaluate call scope (.object fields) =
      (fun vs => .object (Entries.ofList ((fields.map (·.1)).zip vs))) <$>
        evaluateItems call scope [] (fields.map (·.2)) := by
  rw [evaluate, evaluateFields_eq, bind_pure_comp, Functor.map_map]
  rfl

/-- A sign is applied to what its operand comes to. -/
theorem evaluate_unary (op : UnaryOp) (e : Expr) :
    evaluate call scope (.unary op e) = op.apply <$> evaluate call scope e := by
  rw [evaluate, bind_pure_comp]

/-- An operator is applied to what both operands come to, the left one first. -/
theorem evaluate_binary (op : BinaryOp) (l r : Expr) :
    evaluate call scope (.binary op l r) = evaluate call scope l >>= fun v =>
      op.apply call.nan v <$> evaluate call scope r := by
  simp only [evaluate, bind_pure_comp]

/-- A tree that chooses goes by the value of its condition. -/
theorem evaluate_of_choice? {e c : Expr} {next : Value → Value ⊕ Expr}
    (h : e.choice? = some (c, next)) : evaluate call scope e = evaluate call scope c >>= fun v =>
      (next v).elim pure (evaluate call scope) := by
  cases e with
  | and | or | conditional =>
      cases h
      rw [evaluate]
      congr 1
      funext v
      dsimp only
      cases v.isTruthy <;> rfl
  | call f args =>
      cases args with
      | nil => cases h
      | cons c branches =>
          rw [choice?] at h
          split at h
          · rename_i conditional
            cases h
            rw [evaluate, if_pos conditional]
            rcases branches with _ | ⟨y, _ | ⟨n, more⟩⟩
            · rw [evaluateChoice]
              rfl
            all_goals
              rw [evaluateChoice]
              congr 1
              funext v
              dsimp only
              cases v.isTruthy <;> rfl
          · cases h
  | _ => cases h

/-- A choice without arguments is null. -/
theorem evaluate_noCondition {f : String} (h : isConditional f = true) :
    evaluate call scope (.call f []) = pure .null := by
  rw [evaluate, if_pos h]
  rfl

/-- A call is made once its arguments are evaluated. -/
theorem evaluate_call {f : String} (h : isConditional f = false) (args : List Expr) :
    evaluate call scope (.call f args) = evaluateItems call scope [] args >>= call f := by
  rw [evaluate, h]
  rfl

end Expr

namespace Builtin

/-- A built-in function that calls another: the name, the arguments, and what is
made of the answer. -/
def asks? (nan : NanChoice) (args : List Value) :
    Builtin → Option (String × List Value × (Value → Value))
  | randomInteger =>
    let low := Number.ceil (Arguments.number args 0)
    let high := Number.floor (Arguments.number args 1)
    if low.isNaN || high.isNaN || high < low then none
    else some ("RANDOM", [],
      fun draw => .number (nan.settle "RANDINT" [draw.toDouble, .of low, .of high]
        (Number.floor (draw.toNumber * (high - low + 1)) + low)))
  | avg => some ("AVERAGE", args, id)
  | _ => none

/-- A function that asks another answers what is made of the other answer. -/
theorem answer_of_asks? {s : Setting} {args others : List Value} {b : Builtin} {other : String}
    {finish : Value → Value} (h : b.asks? s.host.nan args = some (other, others, finish))
    (call : Caller) : b.answer s call args = (fun v => .ok (finish v)) <$> call other others := by
  cases b with
  | randomInteger =>
      simp only [asks?] at h
      split at h
      · cases h
      · rename_i range
        cases h
        simp only [answer, range, map_eq_pure_bind]
        rfl
  | avg =>
      cases h
      simp only [answer, map_eq_pure_bind]
      rfl
  | _ => cases h

end Builtin

/-- Functions find the same in two settings, their calls apart: the time, the
draws and the NaNs. -/
structure Setting.SuppliesAs (s' s : Setting) : Prop where
  time : s'.currentTime = s.currentTime
  now : s'.now = s.now
  draw : drawNumber s'.host = drawNumber s.host
  nan : s'.host.nan = s.host.nan

/-- Settings on one host at one time supply the same. -/
theorem Setting.SuppliesAs.of_eq {s s' : Setting} (host : s'.host = s.host)
    (time : s'.currentTime = s.currentTime) : s'.SuppliesAs s where
  time := time
  now := by rw [Setting.now, Setting.now, host, time]
  draw := by rw [host]
  nan := by rw [host]

section Supplies

variable {s s' : Setting} (h : s'.SuppliesAs s) (call : Caller)
include h

/-- Built-in functions take no more of a setting than what it supplies. -/
theorem Builtin.answer_congr (b : Builtin) (args : List Value) :
    b.answer s' call args = b.answer s call args := by
  cases b <;> simp only [answer, h.now, h.draw, h.nan]

/-- Neither do functions of the host. -/
theorem Reply.run_congr (reply : Reply) : reply.run s' call = reply.run s call := by
  induction reply with
  | answer v => rfl
  | refuse c => rfl
  | time next ih => rw [run, run, h.time, h.now, ih]
  | draw next ih => simp only [run, h.draw, ih]
  | call name args next ih => simp only [run, ih]

/-- A function does the same where it is supplied with the same and its calls are
made alike. -/
theorem Callable.run_congr (f : Callable) (args : List Value) :
    f.run s' call args = f.run s call args := by
  unfold run
  split
  · rw [Builtin.answer_congr h]
  · rfl
  · rw [Reply.run_congr h]

end Supplies

namespace Setting

variable (s : Setting)

/-- Calls know the NaNs of the host, however deep they may nest. -/
@[simp] theorem nan_call (room : Nat) : (s.call room).nan = s.host.nan := by cases room <;> rfl

/-- Without room a call fails, whatever it calls. -/
theorem call_zero (name : String) (args : List Value) :
    s.call 0 name args = throw (.callDepthExceeded maxCallDepth) := rfl

/-- With room a call runs the function of the name, with less room for its own
calls. -/
theorem call_succ (room : Nat) (name : String) (args : List Value) :
    s.call (room + 1) name args =
      match s.registry.find? name with
      | none => throw (.unknownFunction name)
      | some f => f.run s (s.call room) args := rfl

end Setting

end FormulaSheet
