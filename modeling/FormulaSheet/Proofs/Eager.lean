import FormulaSheet.Proofs.Draws
import FormulaSheet.Proofs.Literal

/-!
# Evaluating every part of a formula

A formula is resolved on its text call by call, in parts that evaluation of
its tree would skip as well.  What it comes to if nothing is skipped is a
relation between trees and values, for any relation between calls and their
answers.

* `Expr.Yields` — every part of a tree has a value, and these make its own;
* `Expr.Yields.evaluate` — evaluation, which skips some parts, agrees;
* `Hole` — a place in a tree, where only the value matters.
-/

namespace FormulaSheet

/-- Which values a call of a function on arguments may be answered with, and
which NaNs arithmetic gives. -/
structure Answers where
  answer : String → List Value → Value → Prop
  nan : NanChoice

instance : CoeFun Answers fun _ => String → List Value → Value → Prop := ⟨Answers.answer⟩

namespace Expr

mutual

/-- A tree and all trees in it. -/
def subterms : Expr → List Expr
  | literal v => [literal v]
  | name s => [name s]
  | array items => array items :: itemSubterms items
  | object fields => object fields :: fieldSubterms fields
  | unary op e => unary op e :: subterms e
  | binary op l r => binary op l r :: (subterms l ++ subterms r)
  | and l r => and l r :: (subterms l ++ subterms r)
  | or l r => or l r :: (subterms l ++ subterms r)
  | conditional c y n => conditional c y n :: (subterms c ++ subterms y ++ subterms n)
  | .call f args => .call f args :: itemSubterms args

/-- All trees in items. -/
def itemSubterms : List Expr → List Expr
  | [] => []
  | e :: es => subterms e ++ itemSubterms es

/-- All trees in fields. -/
def fieldSubterms : List (String × Expr) → List Expr
  | [] => []
  | (_, e) :: fs => subterms e ++ fieldSubterms fs

end

mutual

/-- What a tree comes to where every part of it is evaluated. -/
def Yields (answers : Answers) : Expr → Value → Prop
  | literal v, w => w = v
  | name _, _ => False
  | array items, w => ∃ vs, YieldsItems answers items vs ∧ w = .array vs
  | object fields, w => ∃ fs, YieldsFields answers fields fs ∧
      w = .object (fs.foldl (fun (es : Entries Value) p => es.insert p.1 p.2) [])
  | unary op e, w => ∃ v, Yields answers e v ∧ w = op.apply v
  | binary op l r, w => ∃ u v, Yields answers l u ∧ Yields answers r v ∧
      w = op.apply answers.nan u v
  | and l r, w => ∃ u v, Yields answers l u ∧ Yields answers r v ∧
      w = if u.isTruthy then v else u
  | or l r, w => ∃ u v, Yields answers l u ∧ Yields answers r v ∧
      w = if u.isTruthy then u else v
  | conditional c y n, w => ∃ u a b, Yields answers c u ∧ Yields answers y a ∧
      Yields answers n b ∧ w = if u.isTruthy then a else b
  | .call f args, w => ∃ vs, YieldsItems answers args vs ∧ answers f vs w

/-- What items come to. -/
def YieldsItems (answers : Answers) : List Expr → List Value → Prop
  | [], vs => vs = []
  | e :: es, vs => ∃ w ws, Yields answers e w ∧ YieldsItems answers es ws ∧ vs = w :: ws

/-- What fields come to, in their order. -/
def YieldsFields (answers : Answers) : List (String × Expr) → List (String × Value) → Prop
  | [], fs => fs = []
  | (k, e) :: es, fs => ∃ w gs, Yields answers e w ∧ YieldsFields answers es gs ∧
      fs = (k, w) :: gs

end

mutual

/-- What is plain data yields its value. -/
theorem yields_of_asLiteral? (answers : Answers) : ∀ (e : Expr) (v : Value),
    e.asLiteral? = some v → e.Yields answers v
  | .literal w, v, h => by
    cases h
    rfl
  | .unary .neg (.literal (.number x)), v, h => by
    cases h
    exact ⟨.number x, rfl, rfl⟩
  | .array items, v, h => by
    obtain ⟨vs, hvs, rfl⟩ := Option.map_eq_some_iff.mp h
    obtain ⟨ws, hws, eq⟩ := yieldsItems_of_literalItems? answers items [] vs hvs
    exact ⟨ws, hws, congrArg Value.array eq⟩
  | .object fields, v, h => by
    obtain ⟨vs, hvs, rfl⟩ := Option.map_eq_some_iff.mp h
    obtain ⟨fs, hfs, rfl⟩ := yieldsFields_of_literalFields? answers fields [] vs hvs
    exact ⟨fs, hfs, rfl⟩

/-- Literal items yield their values, whatever calls would answer. -/
theorem yieldsItems_of_literalItems? (answers : Answers) :
    ∀ (items : List Expr) (out vs : List Value), literalItems? out items = some vs →
      ∃ ws, YieldsItems answers items ws ∧ vs = out.reverse ++ ws
  | [], out, vs, h => by
    cases h
    exact ⟨[], rfl, (List.append_nil _).symm⟩
  | e :: es, out, vs, h => by
    rw [literalItems?] at h
    split at h
    · rename_i v hv
      obtain ⟨ws, hws, rfl⟩ := yieldsItems_of_literalItems? answers es (v :: out) vs h
      exact ⟨v :: ws, ⟨v, ws, yields_of_asLiteral? answers e v hv, hws, rfl⟩, by simp⟩
    · cases h

/-- So do literal fields. -/
theorem yieldsFields_of_literalFields? (answers : Answers) :
    ∀ (fields : List (String × Expr)) (out vs : Entries Value),
      literalFields? out fields = some vs →
      ∃ fs, YieldsFields answers fields fs ∧
        vs = fs.foldl (fun es p => es.insert p.1 p.2) out
  | [], out, vs, h => by
    cases h
    exact ⟨[], rfl, rfl⟩
  | (k, e) :: es, out, vs, h => by
    rw [literalFields?] at h
    split at h
    · rename_i v hv
      obtain ⟨fs, hfs, rfl⟩ :=
        yieldsFields_of_literalFields? answers es (out.insert k v) vs h
      exact ⟨(k, v) :: fs, ⟨v, fs, yields_of_asLiteral? answers e v hv, hfs, rfl⟩, rfl⟩
    · cases h

end

/-- The tree is no name, and if it is a call it is answered. -/
def Answered (answers : Answers) : Expr → Prop
  | name _ => False
  | .call f args => ∀ vs, YieldsItems answers args vs → ∃ v, answers f vs v
  | _ => True

mutual

/-- Where every call in a tree without names is answered, the tree yields a
value. -/
theorem exists_yields {answers : Answers} : ∀ e : Expr,
    (∀ t ∈ e.subterms, Answered answers t) → ∃ v, e.Yields answers v
  | .literal v, _ => ⟨v, rfl⟩
  | .name s, h => (h (.name s) List.mem_cons_self).elim
  | .array items, h => by
    obtain ⟨vs, hvs⟩ := exists_yieldsItems items (List.forall_mem_cons.mp h).2
    exact ⟨_, vs, hvs, rfl⟩
  | .object fields, h => by
    obtain ⟨fs, hfs⟩ := exists_yieldsFields fields (List.forall_mem_cons.mp h).2
    exact ⟨_, fs, hfs, rfl⟩
  | .unary op e, h => by
    obtain ⟨v, hv⟩ := exists_yields e (List.forall_mem_cons.mp h).2
    exact ⟨_, v, hv, rfl⟩
  | .binary op l r, h => by
    obtain ⟨hl, hr⟩ := List.forall_mem_append.mp (List.forall_mem_cons.mp h).2
    obtain ⟨u, hu⟩ := exists_yields l hl
    obtain ⟨v, hv⟩ := exists_yields r hr
    exact ⟨_, u, v, hu, hv, rfl⟩
  | .and l r, h => by
    obtain ⟨hl, hr⟩ := List.forall_mem_append.mp (List.forall_mem_cons.mp h).2
    obtain ⟨u, hu⟩ := exists_yields l hl
    obtain ⟨v, hv⟩ := exists_yields r hr
    exact ⟨_, u, v, hu, hv, rfl⟩
  | .or l r, h => by
    obtain ⟨hl, hr⟩ := List.forall_mem_append.mp (List.forall_mem_cons.mp h).2
    obtain ⟨u, hu⟩ := exists_yields l hl
    obtain ⟨v, hv⟩ := exists_yields r hr
    exact ⟨_, u, v, hu, hv, rfl⟩
  | .conditional c y n, h => by
    obtain ⟨hcy, hn⟩ := List.forall_mem_append.mp (List.forall_mem_cons.mp h).2
    obtain ⟨hc, hy⟩ := List.forall_mem_append.mp hcy
    obtain ⟨u, hu⟩ := exists_yields c hc
    obtain ⟨a, ha⟩ := exists_yields y hy
    obtain ⟨b, hb⟩ := exists_yields n hn
    exact ⟨_, u, a, b, hu, ha, hb, rfl⟩
  | .call f args, h => by
    obtain ⟨answered, hargs⟩ := List.forall_mem_cons.mp h
    obtain ⟨vs, hvs⟩ := exists_yieldsItems args hargs
    obtain ⟨v, hv⟩ := answered vs hvs
    exact ⟨v, vs, hvs, hv⟩

/-- Items whose calls are answered yield values. -/
theorem exists_yieldsItems {answers : Answers} : ∀ items : List Expr,
    (∀ t ∈ itemSubterms items, Answered answers t) → ∃ vs, YieldsItems answers items vs
  | [], _ => ⟨[], rfl⟩
  | e :: es, h => by
    obtain ⟨he, hes⟩ := List.forall_mem_append.mp h
    obtain ⟨v, hv⟩ := exists_yields e he
    obtain ⟨vs, hvs⟩ := exists_yieldsItems es hes
    exact ⟨v :: vs, v, vs, hv, hvs, rfl⟩

/-- So do fields. -/
theorem exists_yieldsFields {answers : Answers} : ∀ fields : List (String × Expr),
    (∀ t ∈ fieldSubterms fields, Answered answers t) → ∃ fs, YieldsFields answers fields fs
  | [], _ => ⟨[], rfl⟩
  | (k, e) :: es, h => by
    obtain ⟨he, hes⟩ := List.forall_mem_append.mp h
    obtain ⟨v, hv⟩ := exists_yields e he
    obtain ⟨fs, hfs⟩ := exists_yieldsFields es hes
    exact ⟨(k, v) :: fs, v, fs, hv, hfs, rfl⟩

end

/-- The caller gives every answer without a draw from the source `r`, a call that
chooses between its arguments is answered with the one it chooses, and
arithmetic gives the NaNs that the caller knows. -/
structure Serves (call : Caller) (r : RandomSource) (answers : Answers) : Prop where
  nan : call.nan = answers.nan
  from_call : ∀ {f vs v}, answers f vs v → Run.from (call f vs) r = (.ok v, r)
  choice : ∀ {f vs v}, isConditional f = true → answers f vs v →
    v = if (Arguments.value vs 0).isTruthy then Arguments.value vs 1 else Arguments.value vs 2

section

variable {call : Caller} {r : RandomSource} {answers : Answers}

mutual

/-- Evaluation, which skips parts of a tree, comes to what the whole tree
yields. -/
theorem Yields.evaluate (h : Serves call r answers) (scope : Scope) : ∀ (e : Expr) (v : Value),
    e.Yields answers v → Run.from (e.evaluate call scope) r = (.ok v, r)
  | .literal w, v, hv => by
    cases hv
    rfl
  | .array items, v, hv => by
    obtain ⟨vs, hvs, rfl⟩ := hv
    rw [Expr.evaluate, Run.from_bind_ok (YieldsItems.evaluate h scope items vs [] hvs)]
    rfl
  | .object fields, v, hv => by
    obtain ⟨fs, hfs, rfl⟩ := hv
    rw [Expr.evaluate, Run.from_bind_ok (YieldsFields.evaluate h scope fields fs [] hfs)]
    rfl
  | .unary op e, v, hv => by
    obtain ⟨u, hu, rfl⟩ := hv
    rw [Expr.evaluate, Run.from_bind_ok (Yields.evaluate h scope e u hu)]
    rfl
  | .binary op lhs rhs, v, hv => by
    obtain ⟨u, w, hu, hw, rfl⟩ := hv
    rw [Expr.evaluate, Run.from_bind_ok (Yields.evaluate h scope lhs u hu),
      Run.from_bind_ok (Yields.evaluate h scope rhs w hw), h.nan]
    rfl
  | .and lhs rhs, v, hv => by
    obtain ⟨u, w, hu, hw, rfl⟩ := hv
    rw [Expr.evaluate, Run.from_bind_ok (Yields.evaluate h scope lhs u hu)]
    split
    · exact Yields.evaluate h scope rhs w hw
    · rfl
  | .or lhs rhs, v, hv => by
    obtain ⟨u, w, hu, hw, rfl⟩ := hv
    rw [Expr.evaluate, Run.from_bind_ok (Yields.evaluate h scope lhs u hu)]
    split
    · rfl
    · exact Yields.evaluate h scope rhs w hw
  | .conditional c y n, v, hv => by
    obtain ⟨u, a, b, hu, ha, hb, rfl⟩ := hv
    rw [Expr.evaluate, Run.from_bind_ok (Yields.evaluate h scope c u hu)]
    split
    · exact Yields.evaluate h scope y a ha
    · exact Yields.evaluate h scope n b hb
  | .call f args, v, hv => by
    obtain ⟨vs, hvs, answer⟩ := hv
    rw [Expr.evaluate]
    split
    · rename_i choosing
      rw [h.choice choosing answer]
      exact YieldsItems.evaluateChoice h scope args vs hvs
    · rw [Run.from_bind_ok (YieldsItems.evaluate h scope args vs [] hvs)]
      exact h.from_call answer

/-- A choice comes to the argument that is chosen, though it evaluates no
other. -/
theorem YieldsItems.evaluateChoice (h : Serves call r answers) (scope : Scope) :
    ∀ (args : List Expr) (vs : List Value), YieldsItems answers args vs →
      Run.from (Expr.evaluateChoice call scope args) r =
        (.ok (if (Arguments.value vs 0).isTruthy then Arguments.value vs 1
          else Arguments.value vs 2), r)
  | [], vs, hvs => by
    cases hvs
    rfl
  | [c], vs, hvs => by
    obtain ⟨u, _, hu, rfl, rfl⟩ := hvs
    rw [Expr.evaluateChoice, Run.from_bind_ok (Yields.evaluate h scope c u hu)]
    simp [Arguments.value]
  | [c, y], vs, hvs => by
    obtain ⟨u, _, hu, ⟨a, _, ha, rfl, rfl⟩, rfl⟩ := hvs
    rw [Expr.evaluateChoice, Run.from_bind_ok (Yields.evaluate h scope c u hu)]
    simp only [Arguments.value, List.getD_cons_zero, List.getD_cons_succ]
    split
    · exact Yields.evaluate h scope y a ha
    · rfl
  | c :: y :: n :: more, vs, hvs => by
    obtain ⟨u, _, hu, ⟨a, _, ha, ⟨b, ws, hb, _, rfl⟩, rfl⟩, rfl⟩ := hvs
    rw [Expr.evaluateChoice, Run.from_bind_ok (Yields.evaluate h scope c u hu)]
    simp only [Arguments.value, List.getD_cons_zero, List.getD_cons_succ]
    split
    · exact Yields.evaluate h scope y a ha
    · exact Yields.evaluate h scope n b hb

/-- Items are evaluated one after another to what they yield, with no draw. -/
theorem YieldsItems.evaluate (h : Serves call r answers) (scope : Scope) :
    ∀ (items : List Expr) (vs out : List Value), YieldsItems answers items vs →
      Run.from (evaluateItems call scope out items) r = (.ok (out.reverse ++ vs), r)
  | [], vs, out, hvs => by
    cases hvs
    rw [List.append_nil]
    rfl
  | e :: es, vs, out, hvs => by
    obtain ⟨w, ws, hw, hws, rfl⟩ := hvs
    rw [evaluateItems, Run.from_bind_ok (Yields.evaluate h scope e w hw),
      YieldsItems.evaluate h scope es ws (w :: out) hws]
    simp

/-- So are fields, and a later one of a key takes its place. -/
theorem YieldsFields.evaluate (h : Serves call r answers) (scope : Scope) :
    ∀ (fields : List (String × Expr)) (fs : List (String × Value)) (out : Entries Value),
      YieldsFields answers fields fs →
      Run.from (evaluateFields call scope out fields) r =
        (.ok (fs.foldl (fun (es : Entries Value) p => es.insert p.1 p.2) out), r)
  | [], fs, out, hfs => by
    cases hfs
    rfl
  | (k, e) :: es, fs, out, hfs => by
    obtain ⟨w, gs, hw, hgs, rfl⟩ := hfs
    rw [evaluateFields, Run.from_bind_ok (Yields.evaluate h scope e w hw),
      YieldsFields.evaluate h scope es gs (out.insert k w) hgs]
    rfl

end

end

end Expr

/-- A place in a tree: what stands there has a value where the tree has one,
and can be exchanged for anything else with this value. -/
def Hole (C : Expr → Expr) : Prop :=
  ∀ (answers : Answers) (a : Expr) (v : Value), (C a).Yields answers v →
    ∃ w, a.Yields answers w ∧ ∀ b : Expr, b.Yields answers w → (C b).Yields answers v

namespace Hole

/-- The place of the whole tree. -/
protected theorem id : Hole fun a => a := fun _ _ v h => ⟨v, h, fun _ hb => hb⟩

/-- A place in a place is a place. -/
protected theorem comp {C D : Expr → Expr} (hC : Hole C) (hD : Hole D) :
    Hole fun a => C (D a) := by
  intro answers a v h
  obtain ⟨u, hu, outer⟩ := hC _ _ _ h
  obtain ⟨w, hw, inner⟩ := hD _ _ _ hu
  exact ⟨w, hw, fun b hb => outer _ (inner b hb)⟩

/-- The operand of an operator. -/
theorem unary (op : UnaryOp) : Hole (.unary op) := by
  rintro answers a v ⟨u, hu, rfl⟩
  exact ⟨u, hu, fun b hb => ⟨u, hb, rfl⟩⟩

/-- The left operand of an infix operator. -/
theorem left {k : Nat} {s : Symbol} {build : Expr → Expr → Expr}
    (hop : infixOp? k s = some build) (r : Expr) : Hole fun a => build a r := by
  intro answers a v h
  obtain rfl | rfl | ⟨op, rfl⟩ := build_of_infixOp? hop
  all_goals
    obtain ⟨u, w, hu, hw, rfl⟩ := h
    exact ⟨u, hu, fun b hb => ⟨u, w, hb, hw, rfl⟩⟩

/-- The right operand of an infix operator. -/
theorem right {k : Nat} {s : Symbol} {build : Expr → Expr → Expr}
    (hop : infixOp? k s = some build) (l : Expr) : Hole (build l) := by
  intro answers a v h
  obtain rfl | rfl | ⟨op, rfl⟩ := build_of_infixOp? hop
  all_goals
    obtain ⟨u, w, hu, hw, rfl⟩ := h
    exact ⟨w, hw, fun b hb => ⟨u, w, hu, hb, rfl⟩⟩

/-- The condition of a choice. -/
theorem condition (y n : Expr) : Hole fun c => .conditional c y n := by
  rintro answers a v ⟨u, x, z, hu, hx, hz, rfl⟩
  exact ⟨u, hu, fun b hb => ⟨u, x, z, hb, hx, hz, rfl⟩⟩

/-- The branch that is taken if it holds. -/
theorem yes (c n : Expr) : Hole fun y => .conditional c y n := by
  rintro answers a v ⟨u, x, z, hu, hx, hz, rfl⟩
  exact ⟨x, hx, fun b hb => ⟨u, x, z, hu, hb, hz, rfl⟩⟩

/-- The branch that is taken if not. -/
theorem no (c y : Expr) : Hole (.conditional c y) := by
  rintro answers a v ⟨u, x, z, hu, hx, hz, rfl⟩
  exact ⟨z, hz, fun b hb => ⟨u, x, z, hu, hx, hb, rfl⟩⟩

/-- An item among others. -/
theorem among_items {answers : Answers} {a : Expr} {back : List Expr} (front : List Expr)
    {vs : List Value} (h : Expr.YieldsItems answers (front ++ a :: back) vs) :
    ∃ w, a.Yields answers w ∧ ∀ b : Expr, b.Yields answers w →
      Expr.YieldsItems answers (front ++ b :: back) vs := by
  induction front generalizing vs with
  | nil =>
      obtain ⟨w, ws, hw, hws, rfl⟩ := h
      exact ⟨w, hw, fun b hb => ⟨w, ws, hb, hws, rfl⟩⟩
  | cons e front ih =>
      obtain ⟨u, ws, hu, hws, rfl⟩ := h
      obtain ⟨w, hw, keep⟩ := ih hws
      exact ⟨w, hw, fun b hb => ⟨u, ws, hu, keep b hb, rfl⟩⟩

/-- The value of a field among others. -/
theorem among_fields {answers : Answers} {k : String} {a : Expr} {back : List (String × Expr)}
    (front : List (String × Expr)) {fs : List (String × Value)}
    (h : Expr.YieldsFields answers (front ++ (k, a) :: back) fs) :
    ∃ w, a.Yields answers w ∧ ∀ b : Expr, b.Yields answers w →
      Expr.YieldsFields answers (front ++ (k, b) :: back) fs := by
  induction front generalizing fs with
  | nil =>
      obtain ⟨w, gs, hw, hgs, rfl⟩ := h
      exact ⟨w, hw, fun b hb => ⟨w, gs, hb, hgs, rfl⟩⟩
  | cons f front ih =>
      obtain ⟨key, e⟩ := f
      obtain ⟨u, gs, hu, hgs, rfl⟩ := h
      obtain ⟨w, hw, keep⟩ := ih hgs
      exact ⟨w, hw, fun b hb => ⟨u, gs, hu, keep b hb, rfl⟩⟩

/-- An item of an array. -/
theorem item (front back : List Expr) : Hole fun a => .array (front ++ a :: back) := by
  rintro answers a v ⟨vs, hvs, rfl⟩
  obtain ⟨w, hw, keep⟩ := among_items front hvs
  exact ⟨w, hw, fun b hb => ⟨vs, keep b hb, rfl⟩⟩

/-- An argument of a call. -/
theorem argument (f : String) (front back : List Expr) :
    Hole fun a => .call f (front ++ a :: back) := by
  intro answers a v ⟨vs, hvs, answer⟩
  obtain ⟨w, hw, keep⟩ := among_items front hvs
  exact ⟨w, hw, fun b hb => ⟨vs, keep b hb, answer⟩⟩

/-- The value of a field. -/
theorem field (k : String) (front back : List (String × Expr)) :
    Hole fun a => .object (front ++ (k, a) :: back) := by
  rintro answers a v ⟨fs, hfs, rfl⟩
  obtain ⟨w, hw, keep⟩ := among_fields front hfs
  exact ⟨w, hw, fun b hb => ⟨fs, keep b hb, rfl⟩⟩

end Hole

end FormulaSheet
