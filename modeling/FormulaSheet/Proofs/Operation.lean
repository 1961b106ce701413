import FormulaSheet.Proofs.Reading
import FormulaSheet.Sheet.Snapshot

/-!
# Runs of operations

Everything that can be done to a sheet is one of a few operations, and a sheet
is reached by applying them one after another.  An operation that fails is
applied as well: it leaves the sheet as it was, except for what reading had
remembered before it failed.

Time passes between operations.  A sheet that was given no time of its own
takes it from the host, so the host's clock moving on is an operation too.

* `Sheet.Reaches` — the sheets that operations lead to;
* `Sheet.leads` — all that an operation can do;
* `Sheet.apply_preserves` — what has to be shown for all of them;
* `Sheet.register_eq_ok`, `Sheet.set_eq_ok` — when the operations that can fail
  succeed, and what they lead to then.
-/

namespace FormulaSheet

/-- Operations on a sheet. -/
inductive Operation where
  | register (v : Variable)
  | unregister (id : String)
  | set (id : String) (value : Value)
  | setByName (name : String) (value : Value)
  | read (id : String)
  | readByName (name : String)
  | readAll
  | update (u : ContextUpdate)
  | install (l : Library)
  | registerFunction (f : Callable)
  | unregisterFunction (name : String)
  | evaluate (formula : String)
  | restore (p : Snapshot)
  /-- The host's clock moves on. -/
  | wait (clock : Float)

/-- The setting at another time of the host. -/
def Setting.atClock (s : Setting) (clock : Float) : Setting :=
  { s with host := { s.host with clock := clock } }

namespace Sheet

/-- How many random numbers were drawn so far. -/
def drawn (s : Sheet) : Nat := s.evaluator.memo.random.drawn

/-- The sheet at another time of the host. -/
def atClock (s : Sheet) (clock : Float) : Sheet :=
  { s with evaluator := { s.evaluator with setting := s.evaluator.setting.atClock clock } }

/-- The sheet that an operation leads to. -/
def apply (s : Sheet) : Operation → Sheet
  | .register v => (s.register v).toOption.getD s
  | .unregister id => (s.unregister id).2
  | .set id value => (s.set id value).toOption.getD s
  | .setByName name value => (s.setByName name value).toOption.getD s
  | .read id => (s.read id).2
  | .readByName name => (s.readByName name).2
  | .readAll => s.readAll.2
  | .update u => s.update u
  | .install l => s.install l
  | .registerFunction f => s.registerFunction f
  | .unregisterFunction name => (s.unregisterFunction name).2
  | .evaluate formula => (s.evaluate formula).2
  | .restore p => s.restore p
  | .wait clock => s.atClock clock

/-- The sheet that operations lead to, one after another. -/
def run (s : Sheet) (ops : List Operation) : Sheet := ops.foldl apply s

/-- The host's clock moves on only where the evaluator was given its time. -/
def Timed (s : Sheet) : Operation → Prop
  | .wait _ => s.evaluator.setting.currentTime.isSome = true
  | _ => True

/-- Each of the operations is timed where it is applied. -/
def Timely (s : Sheet) : List Operation → Prop
  | [] => True
  | op :: ops => s.Timed op ∧ (s.apply op).Timely ops

/-- The sheets that operations lead to from `start`, each of which is allowed
where it is applied. -/
inductive Reaches (allowed : Sheet → Operation → Prop) (start : Sheet) : Sheet → Prop
  | start : Reaches allowed start start
  | step {s : Sheet} {op : Operation} :
      Reaches allowed start s → allowed s op → Reaches allowed start (s.apply op)

/-- Anything that every allowed operation preserves holds of every sheet that
is reached. -/
theorem Reaches.invariant {allowed : Sheet → Operation → Prop} {start : Sheet} {P : Sheet → Prop}
    (hstart : P start) (hstep : ∀ s op, P s → allowed s op → P (s.apply op))
    {s : Sheet} (h : Reaches allowed start s) : P s := by
  induction h with
  | start => exact hstart
  | step _ ok ih => exact hstep _ _ ih ok

/-- Operations that are allowed anywhere lead from one sheet that is reached to
another. -/
theorem Reaches.run {allowed : Sheet → Operation → Prop} {start s : Sheet}
    (h : Reaches allowed start s) {ops : List Operation}
    (anywhere : ∀ op ∈ ops, ∀ s, allowed s op) : Reaches allowed start (s.run ops) := by
  induction ops generalizing s with
  | nil => exact h
  | cons op ops ih =>
      rw [List.forall_mem_cons] at anywhere
      exact ih (.step h (anywhere.1 s)) anywhere.2

/-- Reading every variable reads one after another. -/
theorem readAll_respects {R : Sheet → Sheet → Prop} (refl : ∀ s, R s s)
    (trans : ∀ {s t u}, R s t → R t u → R s u) (hread : ∀ s id, R s (s.read id).2)
    (s : Sheet) : R s s.readAll.2 := by
  have go : ∀ (vs : List Variable) (values : Table Value) (s : Sheet),
      R s (readInto values vs s).2 := by
    intro vs
    induction vs with
    | nil => exact fun values s => refl s
    | cons v vs ih =>
        intro values s
        have first := hread s v.id
        unfold readInto
        split
        · rename_i value s' eq
          rw [eq] at first
          exact trans first (ih _ s')
        · rename_i e s' eq
          rw [eq] at first
          exact first
  exact go s.all .empty s

/-- Evaluating a formula concludes a text. -/
theorem evaluate_eq (s : Sheet) (formula : String) : ∃ text, (s.evaluate formula).2 =
    s.withHeld ⟨s.values, (s.evaluator.setting.conclude text s.evaluator.memo).2⟩ := by
  unfold evaluate Evaluator.evaluate Evaluator.evaluateWith
  rcases (Outline.ofText (formulaBody formula.toList)).substituteTable s.evaluator.bindings with
    ⟨text, names⟩
  exact ⟨text, rfl⟩

/-- What an operation can lead to.  An operation by a name is one by an id; one
that fails changes nothing; and one that changes the evaluator leaves it on its
host and makes it forget its results. -/
inductive Leads (s : Sheet) : Operation → Sheet → Prop
  | nowhere {op : Operation} : Leads s op s
  | register {v : Variable} {s' : Sheet} : s.register v = .ok s' → Leads s (.register v) s'
  | unregister (id : String) : Leads s (.unregister id) (s.unregister id).2
  | set {op : Operation} {id : String} {value : Value} {s' : Sheet} :
      s.set id value = .ok s' → Leads s op s'
  | read {op : Operation} (id : String) : Leads s op (s.read id).2
  | readAll : Leads s .readAll s.readAll.2
  | withEvaluator {op : Operation} {e : Evaluator} :
      e.setting.host = s.evaluator.setting.host → e = s.evaluator ∨ e.memo.results = .empty →
      e.memo.random.drawn = s.drawn → Leads s op (s.withEvaluator e)
  | conclude {op : Operation} (text : List Char) : Leads s op
      (s.withHeld ⟨s.values, (s.evaluator.setting.conclude text s.evaluator.memo).2⟩)
  | restore (p : Snapshot) : Leads s (.restore p) (s.restore p)
  | wait (clock : Float) : Leads s (.wait clock) (s.atClock clock)

/-- Functions that become known make an evaluator forget its results. -/
theorem install_forgets (l : Library) (e : Evaluator) :
    (l.install e).setting.host = e.setting.host ∧
      (l.install e = e ∨ (l.install e).memo.results = .empty) ∧
      (l.install e).memo.random.drawn = e.memo.random.drawn :=
  List.foldlRecOn l.callables Evaluator.register
    (motive := fun e' : Evaluator => e'.setting.host = e.setting.host ∧
      (e' = e ∨ e'.memo.results = .empty) ∧ e'.memo.random.drawn = e.memo.random.drawn)
    ⟨rfl, .inl rfl, rfl⟩ fun _ ih _ _ => ⟨ih.1, .inr rfl, ih.2.2⟩

/-- Every operation does one of these things. -/
theorem leads (s : Sheet) (op : Operation) : s.Leads op (s.apply op) := by
  have orElse : ∀ {op : Operation} {result : Except SheetError Sheet},
      (∀ {s'}, result = .ok s' → s.Leads op s') → s.Leads op (result.toOption.getD s) := by
    intro op result h
    cases result with
    | error e => exact .nowhere
    | ok s' => exact h rfl
  cases op with
  | register v => exact orElse .register
  | unregister id => exact .unregister id
  | set id value => exact orElse .set
  | setByName name value =>
      apply orElse
      intro s' h
      unfold Sheet.setByName at h
      split at h
      · exact .set h
      · cases h
  | read id => exact .read id
  | readByName name =>
      change s.Leads _ (s.readByName name).2
      unfold Sheet.readByName
      split
      · exact .read _
      · exact .nowhere
  | readAll => exact .readAll
  | update u =>
      exact .withEvaluator rfl (.inr (s.evaluator.results_update u)) (s.evaluator.drawn_update u)
  | install l =>
      obtain ⟨host, forgets, drawn⟩ := install_forgets l s.evaluator
      exact .withEvaluator host forgets drawn
  | registerFunction f => exact .withEvaluator rfl (.inr rfl) rfl
  | unregisterFunction name => exact .withEvaluator rfl (.inr rfl) rfl
  | evaluate formula =>
      obtain ⟨text, eq⟩ := s.evaluate_eq formula
      change s.Leads _ (s.evaluate formula).2
      rw [eq]
      exact .conclude text
  | restore p => exact .restore p
  | wait clock => exact .wait clock

/-- What every change of a sheet preserves every operation preserves. -/
theorem apply_preserves {P : Sheet → Prop} {s : Sheet} (hs : P s)
    (register : ∀ {v s'}, s.register v = .ok s' → P s')
    (unregister : ∀ id, P (s.unregister id).2)
    (set : ∀ {id value s'}, s.set id value = .ok s' → P s')
    (read : ∀ t id, P t → P (t.read id).2)
    (withEvaluator : ∀ e, P (s.withEvaluator e))
    (evaluator : ∀ e, P { s with evaluator := e })
    (op : Operation) (restore : ∀ p, op = .restore p → P (s.restore p)) : P (s.apply op) := by
  have led := s.leads op
  generalize s.apply op = s' at led ⊢
  cases led with
  | nowhere => exact hs
  | register h => exact register h
  | unregister id => exact unregister id
  | set h => exact set h
  | read id => exact read s id hs
  | readAll =>
      exact readAll_respects (R := fun s s' => P s → P s') (fun _ h => h)
        (fun first second h => second (first h)) read s hs
  | withEvaluator _ _ _ => exact withEvaluator _
  | conclude text => exact evaluator _
  | restore p => exact restore p rfl
  | wait clock => exact evaluator _

/-- A variable is registered unless another id has its name. -/
theorem register_eq_ok {s s' : Sheet} {v : Variable} :
    s.register v = .ok s' ↔ (∀ id, s.names.get? v.name = some id → id = v.id) ∧
      s' = ((s.file v).rebuild).invalidate v.id := by
  unfold register
  dsimp only
  split
  · rename_i existing hname
    rw [hname]
    split
    · rename_i same
      constructor
      · intro h
        refine ⟨?_, (Except.ok.inj h).symm⟩
        intro id eq
        cases eq
        exact same
      · rintro ⟨_, rfl⟩
        rfl
    · rename_i other
      constructor
      · intro h
        cases h
      · intro ⟨free, _⟩
        exact absurd (free existing rfl) other
  · rename_i hname
    rw [hname]
    constructor
    · intro h
      refine ⟨?_, (Except.ok.inj h).symm⟩
      intro id eq
      cases eq
    · rintro ⟨_, rfl⟩
      rfl

/-- A value is set in a source that accepts it. -/
theorem set_eq_ok {s s' : Sheet} {id : String} {value : Value} :
    s.set id value = .ok s' ↔ ∃ v, s.definitions.get? id = some v ∧ v.isDerived = false ∧
      v.type.accepts value = true ∧
      (v.rules.bind fun r => r.check s.evaluator.setting.host.regex value) = none ∧
      s' = { s with values := s.values.insert id value }.invalidate id := by
  unfold set
  constructor
  · intro h
    split at h
    · cases h
    · rename_i v hv
      split at h
      · cases h
      · rename_i source
        split at h
        · rename_i accepts
          split at h
          · cases h
          · rename_i passes
            exact ⟨v, hv, by simpa using source, accepts, passes, (Except.ok.inj h).symm⟩
        · cases h
  · rintro ⟨v, hv, source, accepts, passes, rfl⟩
    simp [hv, source, accepts, passes]

/-- The names once a variable is filed: its own in place of the one that its
id had. -/
theorem get?_names_file (s : Sheet) (v : Variable) (name : String) :
    (s.file v).names.get? name =
      if v.name = name then some v.id
      else if (s.definitions.get? v.id).any (fun previous => previous.name = name) then none
      else s.names.get? name := by
  unfold file
  dsimp only
  rw [Table.get?_insert]
  cases hprevious : s.definitions.get? v.id with
  | none => rfl
  | some previous =>
      dsimp only
      rw [Table.get?_erase]
      simp [eq_comm]

theorem get?_definitions_file (s : Sheet) (v : Variable) (id : String) :
    (s.file v).definitions.get? id = if v.id = id then some v else s.definitions.get? id :=
  Table.get?_insert s.definitions v.id id v

/-- The values once a variable is filed: a source begins with its default. -/
theorem get?_values_file (s : Sheet) (v : Variable) (id : String) :
    (s.file v).values.get? id = if v.id = id then v.initial? else s.values.get? id := by
  unfold file
  dsimp only
  by_cases hid : v.id = id
  · subst hid
    cases v.initial? <;> simp [Table.get?_insert, Table.get?_erase]
  · cases v.initial? <;> simp [Table.get?_insert, Table.get?_erase, hid, Ne.symm hid]

end Sheet

end FormulaSheet
