import FormulaSheet.Proofs.Application
import FormulaSheet.Proofs.Rebuilding
import FormulaSheet.Proofs.RoundTrip

/-!
# Objects stay in order

The fields of an object are in the order of their keys.  A tree that was parsed
has only plain values in it; evaluation files fields where they belong; and the
built-in functions take values apart but make no objects.  So calls on values
in order come to values in order.

* `Run.Always` — what holds of whatever a run comes to;
* `Expr.ordered_of_parsed` — the values in a parsed tree;
* `Library.ordered_call` — the values of calls.
-/

namespace FormulaSheet

namespace Run

variable {α β : Type} {P : α → Prop} {Q : β → Prop}

/-- Whatever a run comes to has a property. -/
def Always (P : α → Prop) (m : Run α) : Prop :=
  ∀ r a, (Run.from m r).1 = .ok a → P a

namespace Always

/-- A run that returns comes to what it returns. -/
protected theorem pure {a : α} (h : P a) : Always P (pure a : Run α) := by
  intro r b eq
  cases eq
  exact h

/-- A run that fails comes to nothing. -/
protected theorem throw (e : FormulaError) : Always P (throw e : Run α) := by
  intro r a eq
  cases eq

/-- What holds of the first result and carries over holds of the second. -/
protected theorem bind {m : Run α} {f : α → Run β} (h : Always P m)
    (hf : ∀ a, P a → Always Q (f a)) : Always Q (m >>= f) := by
  intro r b eq
  rcases run : Run.from m r with ⟨_ | a, r'⟩
  · rw [Run.from_bind_error run] at eq
    cases eq
  · rw [Run.from_bind_ok run] at eq
    exact hf a (h r a (by rw [run])) r' b eq

/-- What a function keeps holds of its result. -/
protected theorem map {m : Run α} (h : Always P m) {f : α → β} (hf : ∀ a, P a → Q (f a)) :
    Always Q (f <$> m) := by
  rw [map_eq_pure_bind]
  exact h.bind fun a ha => .pure (hf a ha)

end Always

end Run

open Run (Always)

/-- Every value is in order. -/
abbrev Value.AllOrdered (vs : List Value) : Prop := ∀ v ∈ vs, v.Ordered

/-- Calls of the caller on values in order come to values in order. -/
abbrev OrderedCaller (call : Caller) : Prop :=
  ∀ name args, Value.AllOrdered args → Always Value.Ordered (call name args)

namespace Expr

/-- The values in a tree are in order. -/
def Ordered (e : Expr) : Prop := ∀ v, .literal v ∈ e.subterms → v.Ordered

/-- A tree with fewer subterms has fewer values to be in order. -/
theorem Ordered.of_subset {e e' : Expr} (h : e.Ordered) (sub : e'.subterms ⊆ e.subterms) :
    e'.Ordered := fun v hv => h v (sub hv)

/-- What a choice comes to without going on is its condition, or null. -/
theorem eq_of_choice? {e c : Expr} {next : Value → Value ⊕ Expr}
    (h : e.choice? = some (c, next)) {v w : Value} (goes : next v = .inl w) :
    w = v ∨ w = .null := by
  cases e with
  | and l r | or l r =>
      cases h
      dsimp only at goes
      split at goes <;> cases goes
      exact .inl rfl
  | conditional c y n =>
      cases h
      cases goes
  | call f args =>
      cases args with
      | nil => cases h
      | cons c branches =>
          rw [choice?] at h
          split at h
          · cases h
            dsimp only at goes
            split at goes <;> cases goes
            exact .inr rfl
          · cases h
  | _ => cases h

/-- A value is derived from one token, so it has no parts. -/
theorem ordered_of_derives {p : Phrase} {ts : List Token} {v : Value}
    (h : Derives p ts (.literal v)) : v.Ordered := by
  generalize tree : Expr.literal v = e at h
  induction h with
  | plain _ ih | tighter _ _ ih | top _ ih | base _ ih | paren _ ih => exact ih tree
  | binary hop _ _ _ _ =>
      obtain rfl | rfl | ⟨op, rfl⟩ := build_of_infixOp? hop <;> cases tree
  | number x =>
      cases tree
      exact .number (.of x)
  | text s =>
      cases tree
      exact .text s
  | name s =>
      unfold nameExpr at tree
      split at tree <;> cases tree
      rename_i reserved
      unfold reservedValue? at reserved
      split_ifs at reserved <;> cases reserved <;> simp
  | _ => cases tree

/-- The values in a parsed tree are in order. -/
theorem ordered_of_parsed {cs : List Char} {e : Expr} (h : Expr.ofChars cs = .ok e) :
    e.Ordered := by
  intro v hv
  obtain ⟨bs, -, -, htokens⟩ := Expr.ofChars_eq_ok_iff.mp h
  obtain ⟨ts, -, derived⟩ := Parser.parseTokens_eq_ok_iff.mp htokens
  obtain ⟨l, us, r, p, -, literal⟩ := derived.among hv
  exact ordered_of_derives literal

variable {call : Caller} {scope : Scope}

/-- Items in order evaluate to values in order. -/
theorem ordered_evaluateItems {es : List Expr}
    (h : ∀ e ∈ es, Always Value.Ordered (e.evaluate call scope)) :
    Always Value.AllOrdered (evaluateItems call scope [] es) := by
  induction es with
  | nil => exact .pure (List.forall_mem_nil _)
  | cons e es ih =>
      obtain ⟨first, others⟩ := List.forall_mem_cons.mp h
      rw [evaluateItems_cons]
      exact first.bind fun v hv => (ih others).map fun vs hvs =>
        List.forall_mem_cons.mpr ⟨hv, hvs⟩

/-- Evaluation of a tree comes to values in order. -/
theorem ordered_evaluate (hcall : OrderedCaller call)
    (hscope : ∀ name v, scope.get? name = some v → v.Ordered) (e : Expr) (h : e.Ordered) :
    Always Value.Ordered (e.evaluate call scope) := by
  induction e using stepInduction with
  | literal v =>
      rw [evaluate]
      exact .pure (h v List.mem_cons_self)
  | name s =>
      rw [evaluate]
      split
      · rename_i v found
        exact .pure (hscope s v found)
      · exact .throw _
  | array items ih =>
      rw [evaluate_array]
      refine (ordered_evaluateItems fun e he => ih e he (h.of_subset fun t ht => ?_)).map
        fun vs hvs => .array hvs
      exact List.mem_cons_of_mem _ (mem_itemSubterms_iff.mpr ⟨e, he, ht⟩)
  | object fields ih =>
      rw [evaluate_object]
      refine (ordered_evaluateItems fun e he => ih e he (h.of_subset fun t ht => ?_)).map
        fun vs hvs => .object (Entries.ascending_ofList _) fun f hf => ?_
      · exact List.mem_cons_of_mem _ (mem_fieldSubterms_iff.mpr ⟨e, he, ht⟩)
      · exact hvs f.2 (List.of_mem_zip (Entries.mem_ofList hf)).2
  | unary op e ih =>
      rw [evaluate_unary]
      refine (ih (h.of_subset fun t ht => List.mem_cons_of_mem _ ht)).map fun v _ => ?_
      cases op <;> simp [UnaryOp.apply]
  | binary op l r ihl ihr =>
      rw [evaluate_binary]
      refine (ihl (h.of_subset fun t ht => by simp [subterms, ht])).bind fun v _ =>
        (ihr (h.of_subset fun t ht => by simp [subterms, ht])).map fun w _ => ?_
      unfold BinaryOp.apply
      cases op <;> simp only [Value.Ordered.bool, Value.Ordered.number]
      split <;> simp
  | choice e c next chooses ihc ihb =>
      obtain ⟨condition, branches⟩ := subterms_of_choice? chooses
      rw [evaluate_of_choice? _ _ chooses]
      refine (ihc (h.of_subset condition)).bind fun v hv => ?_
      cases goes : next v with
      | inl w =>
          rcases eq_of_choice? chooses goes with rfl | rfl
          · exact .pure hv
          · exact .pure .null
      | inr e' => exact ihb v e' goes (h.of_subset (branches v e' goes))
  | noCondition f kind =>
      rw [evaluate_noCondition _ _ kind]
      exact .pure .null
  | call f args kind ih =>
      rw [evaluate_call _ _ kind]
      refine (ordered_evaluateItems fun e he => ih e he (h.of_subset fun t ht => ?_)).bind
        fun vs hvs => hcall f vs hvs
      exact List.mem_cons_of_mem _ (mem_itemSubterms_iff.mpr ⟨e, he, ht⟩)

end Expr

namespace Value.AllOrdered

variable {vs : List Value}

/-- An argument is in order, or left out. -/
theorem getD (h : AllOrdered vs) (n : Nat) : (vs.getD n .null).Ordered := by
  rw [List.getD_eq_getElem?_getD]
  cases found : vs[n]? with
  | none => exact .null
  | some v => exact h v (List.mem_of_getElem? found)

/-- So are the items of an array among the arguments. -/
theorem items (h : AllOrdered vs) {n : Nat} {asker : String} {ws : List Value}
    (taken : Arguments.array vs n asker = .ok ws) : AllOrdered ws := by
  have item : (Arguments.value vs n).Ordered := h.getD n
  unfold Arguments.array at taken
  split at taken
  · rename_i eq
    cases taken
    rw [eq, Value.ordered_array_iff] at item
    exact item
  · cases taken

/-- So is what is made of these items by a function that keeps the order. -/
theorem map_items (h : AllOrdered vs) {n : Nat} {asker : String} {f : List Value → Value}
    (hf : ∀ ws, AllOrdered ws → (f ws).Ordered) {v : Value}
    (answered : (Arguments.array vs n asker).map f = .ok v) : v.Ordered := by
  cases taken : Arguments.array vs n asker with
  | error c =>
      rw [taken] at answered
      cases answered
  | ok ws =>
      rw [taken] at answered
      cases answered
      exact hf ws (h.items taken)

/-- Leaving out what comes again keeps the values in order. -/
theorem distinct (h : AllOrdered vs) {seen : List Value} (hseen : AllOrdered seen) :
    AllOrdered (Sequences.distinct seen vs) := by
  induction vs generalizing seen with
  | nil =>
      intro v hv
      exact hseen v (List.mem_reverse.mp hv)
  | cons v vs ih =>
      obtain ⟨first, others⟩ := List.forall_mem_cons.mp h
      rw [Sequences.distinct]
      split
      · exact ih others hseen
      · exact ih others (List.forall_mem_cons.mpr ⟨first, hseen⟩)

end Value.AllOrdered

mutual

/-- Flattening keeps the values in order. -/
theorem Sequences.ordered_flattenOnto {out : List Value} (hout : Value.AllOrdered out) :
    ∀ v : Value, v.Ordered → Value.AllOrdered (flattenOnto out v)
  | .array vs, h => ordered_flattenItemsOnto hout vs (Value.ordered_array_iff.mp h)
  | .null, h | .bool _, h | .number _, h | .text _, h | .object _, h =>
    List.forall_mem_cons.mpr ⟨h, hout⟩

/-- So does flattening items one after another. -/
theorem Sequences.ordered_flattenItemsOnto {out : List Value} (hout : Value.AllOrdered out) :
    ∀ vs : List Value, Value.AllOrdered vs → Value.AllOrdered (flattenItemsOnto out vs)
  | [], _ => hout
  | v :: vs, h =>
    ordered_flattenItemsOnto (ordered_flattenOnto hout v (h v List.mem_cons_self)) vs
      fun w hw => h w (List.mem_cons_of_mem _ hw)

end

/-- A figure is a number. -/
theorem PlainBuiltin.ordered_figure (nan : NanChoice) (p : PlainBuiltin) (least : Nat)
    (xs : List Float) (x : Float) : (p.figure nan least xs x).Ordered := by
  unfold figure
  split <;> exact .number _

/-- The plain built-in functions make no objects. -/
theorem PlainBuiltin.ordered_answer (nan : NanChoice) (p : PlainBuiltin) {args : List Value}
    (h : Value.AllOrdered args) {v : Value} (answered : p.answer nan args = .ok v) :
    v.Ordered := by
  cases p with
  | average | median | variance =>
      cases answered
      exact ordered_figure nan _ _ _ _
  | zscore =>
      cases answered
      unfold zscoreOf
      dsimp only
      split <;> exact .number _
  | choose =>
      cases answered
      split
      · exact h.getD 1
      · exact h.getD 2
  | mode =>
      cases answered
      cases Statistics.mode (Arguments.numbers args) <;> simp
  | percentile =>
      rw [answer, percentileOf] at answered
      split at answered <;> cases answered
      split <;> exact .number _
  | sort =>
      refine h.map_items (fun ws hws => .array fun w hw => hws w ?_) answered
      rw [Sequences.sort, sortBy_eq_mergeSort] at hw
      split at hw
      · exact List.mem_mergeSort.mp (List.mem_reverse.mp hw)
      · exact List.mem_mergeSort.mp hw
  | reverse =>
      exact h.map_items (fun ws hws => .array fun w hw => hws w (List.mem_reverse.mp hw)) answered
  | unique =>
      exact h.map_items (fun ws hws => .array (hws.distinct (List.forall_mem_nil _))) answered
  | slice =>
      exact h.map_items (fun ws hws => .array fun w hw =>
        hws w (List.mem_of_mem_take (List.mem_of_mem_drop hw))) answered
  | index =>
      refine h.map_items (fun ws hws => ?_) answered
      unfold valueAt
      split
      · exact .null
      · exact hws.getD _
  | join => exact h.map_items (fun ws hws => .text _) answered
  | split =>
      cases answered
      refine .array fun w hw => ?_
      obtain ⟨s, -, rfl⟩ := List.mem_map.mp hw
      exact .text s
  | sequence =>
      rw [answer, sequenceOf] at answered
      split at answered
      · cases answered
      · dsimp only at answered
        split at answered <;> cases answered
        refine .array fun w hw => ?_
        obtain ⟨i, -, rfl⟩ := List.mem_map.mp hw
        exact .number _
  | first =>
      refine h.map_items (fun ws hws => ?_) answered
      cases ws with
      | nil => exact .null
      | cons w ws => exact hws w List.mem_cons_self
  | last =>
      refine h.map_items (fun ws hws => ?_) answered
      rw [List.getLastD_eq_getLast?]
      cases found : ws.getLast? with
      | none => exact .null
      | some w => exact hws w (List.mem_of_getLast? found)
  | flatten =>
      cases answered
      refine .array fun w hw => ?_
      exact Sequences.ordered_flattenItemsOnto (List.forall_mem_nil _) args h w
        (List.mem_reverse.mp hw)
  | _ =>
      cases answered
      simp [computed]

/-- A built-in function comes to values in order if the others do. -/
theorem Builtin.ordered_answer (s : Setting) {call : Caller} (hcall : OrderedCaller call)
    {args : List Value} (h : Value.AllOrdered args) (b : Builtin) :
    Always (fun answer => ∀ v, answer = .ok v → v.Ordered) (b.answer s call args) := by
  have number : ∀ x : Double, Always (fun answer => ∀ v, answer = .ok v → v.Ordered)
      (pure (.ok (.number x)) : Run (Except Complaint Value)) := by
    refine fun x => .pure fun v eq => ?_
    cases eq
    exact .number x
  cases b with
  | plain p => exact .pure fun v answered => p.ordered_answer s.host.nan h answered
  | now => exact number _
  | timeSince =>
      unfold Builtin.answer
      dsimp only
      split
      · exact .pure fun v eq => by cases eq
      · exact number _
  | random =>
      have drawn : Always (fun _ => True) (drawNumber s.host) := fun _ _ _ => trivial
      exact drawn.bind fun x _ => number (.of x)
  | randomInteger =>
      unfold Builtin.answer
      dsimp only
      split
      · exact .pure fun v eq => by cases eq
      · exact (hcall "RANDOM" [] (List.forall_mem_nil _)).bind fun v _ => number _
  | avg =>
      refine (hcall "AVERAGE" args h).bind fun v hv => .pure fun w eq => ?_
      cases eq
      exact hv

/-- A function of the host goes on to values in order, as long as it is answered
with such. -/
def Reply.Ordered : Reply → Prop
  | answer v => v.Ordered
  | refuse _ => True
  | time next => ∀ given now, (next given now).Ordered
  | draw next => ∀ x, (next x).Ordered
  | call _ args next => Value.AllOrdered args ∧ ∀ v, v.Ordered → (next v).Ordered

/-- A reply of the host whose answers are in order comes to a value in order. -/
theorem Reply.ordered_run (s : Setting) {call : Caller} (hcall : OrderedCaller call)
    {reply : Reply} (h : reply.Ordered) :
    Always (fun answer => ∀ v, answer = .ok v → v.Ordered) (reply.run s call) := by
  induction reply with
  | answer v =>
      refine .pure fun w eq => ?_
      cases eq
      exact h
  | refuse c => exact .pure fun v eq => by cases eq
  | time next ih => exact ih _ _ (h _ _)
  | draw next ih =>
      have drawn : Always (fun _ => True) (drawNumber s.host) := fun _ _ _ => trivial
      exact drawn.bind fun x _ => ih x (h x)
  | call name args next ih =>
      exact (hcall name args h.1).bind fun v hv => ih v (h.2 v hv)

/-- The values in the formula of a function are in order, or those that the host
goes on to are. -/
def Callable.Ordered (f : Callable) : Prop :=
  match f.body with
  | .builtin _ => True
  | .formula _ e => e.Ordered
  | .host reply => ∀ args, Value.AllOrdered args → (reply args).Ordered

/-- The values that parameters are bound to. -/
theorem ordered_of_bound {args : List Value} (h : Value.AllOrdered args) (ps : List String)
    {name : String} {v : Value}
    (bound : (Table.ofList (bindParameters ps args)).get? name = some v) : v.Ordered := by
  have pairs : ∀ p ∈ bindParameters ps args, p.2.Ordered := by
    clear bound
    induction ps generalizing args with
    | nil => exact List.forall_mem_nil _
    | cons p ps ih =>
        cases args with
        | nil => exact List.forall_mem_cons.mpr ⟨.null, ih h⟩
        | cons v args =>
            obtain ⟨first, others⟩ := List.forall_mem_cons.mp h
            exact List.forall_mem_cons.mpr ⟨first, ih others⟩
  exact pairs (name, v) (Entries.mem_ofList (Entries.mem_of_find? bound))

/-- **A function that keeps to the order of fields answers in it**, whoever defines it. -/
theorem Callable.ordered_run {f : Callable} (hf : f.Ordered) (s : Setting) {call : Caller}
    (hcall : OrderedCaller call) {args : List Value} (h : Value.AllOrdered args) :
    Always Value.Ordered (f.run s call args) := by
  have settled : ∀ answer : Except Complaint Value, (∀ v, answer = .ok v → v.Ordered) →
      Always Value.Ordered (f.settle answer) := by
    rintro (c | v) hanswer
    · exact .throw _
    · exact .pure (hanswer v rfl)
  unfold Callable.Ordered at hf
  unfold Callable.run
  split <;> rename_i body <;> rw [body] at hf
  · exact (Builtin.ordered_answer s hcall h _).bind settled
  · exact Expr.ordered_evaluate hcall (fun name v => ordered_of_bound h _) _ hf
  · exact (Reply.ordered_run s hcall (hf args h)).bind settled

/-- Calls come to values in order if the formulas of the registry are in order. -/
theorem Setting.ordered_call {s : Setting}
    (h : ∀ name f, s.registry.find? name = some f → f.Ordered) (room : Nat) :
    OrderedCaller (s.call room) := by
  induction room with
  | zero => exact fun name args _ => .throw _
  | succ room ih =>
      intro name args hargs
      rw [call_succ]
      split
      · exact .throw _
      · rename_i f found
        exact f.ordered_run (h name f found) s ih hargs

/-- **Calls on values in order come to values in order**, whatever has been
defined. -/
theorem Library.ordered_call (requests : List Request) (host : Host) (c : Context) (room : Nat) :
    OrderedCaller (((after requests).evaluator host c).setting.call room) := by
  refine Setting.ordered_call (fun name f found => ?_) room
  have covered := (overlaid_after requests).registry (capitals name)
  unfold Callable.Ordered
  rcases Option.or_eq_some_iff.mp (covered.symm.trans found) with defined | ⟨-, builtin⟩
  · obtain ⟨g, accepted, rfl⟩ := Option.map_eq_some_iff.mp defined
    obtain ⟨-, -, e', parsed, compiled⟩ :=
      Definition.compile_eq_ok_iff.mp (compile_of_find?_after accepted)
    show g.body.Ordered
    rw [compiled]
    exact Expr.ordered_of_parsed parsed
  · have member := Entries.mem_ofList (Entries.mem_of_find? builtin)
    obtain ⟨b, -, same⟩ := List.mem_map.mp member
    rw [← (Prod.mk.inj same).2]
    exact trivial

end FormulaSheet
