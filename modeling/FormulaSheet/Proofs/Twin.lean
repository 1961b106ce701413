import FormulaSheet.Proofs.Freshness

/-!
# Twins

Two sheets that differ only in what their evaluators remember, and there only
in texts that come to the same whenever they are reduced, cannot be told apart:
every operation is answered alike, and leaves two such sheets again.

* `Sheet.answer`, `Sheet.view` — what operations answer, and what a sheet shows
  without being changed;
* `Sheet.Twin` — the relation;
* `Sheet.Twin.apply` — one operation, its answer and the sheets after it;
* `Sheet.Twin.run` — any number of them.
-/

namespace FormulaSheet

/-- What is answered to an operation. -/
def Operation.Answer : Operation → Type
  | .register _ | .set _ _ | .setByName _ _ => Except SheetError Unit
  | .unregister _ => Option Variable
  | .read _ | .readByName _ => Except SheetError Value
  | .readAll => Except SheetError (Table Value)
  | .unregisterFunction _ => Option Callable
  | .evaluate _ => Evaluated
  | .update _ | .install _ | .registerFunction _ | .restore _ | .wait _ => Unit

/-- What a sheet shows of itself. -/
structure View where
  find? : String → Option Variable
  findByName? : String → Option Variable
  all : List Variable
  size : Nat
  dependenciesOf : String → List String
  dependentsOf : String → List String
  checkCycles : Except SheetError Unit
  snapshot : Snapshot
  context : Context
  registry : Registry

namespace Sheet

/-- The answer to an operation. -/
def answer (s : Sheet) : (op : Operation) → op.Answer
  | .register v => (s.register v).map fun _ => ()
  | .unregister id => (s.unregister id).1
  | .set id value => (s.set id value).map fun _ => ()
  | .setByName name value => (s.setByName name value).map fun _ => ()
  | .read id => (s.read id).1
  | .readByName name => (s.readByName name).1
  | .readAll => s.readAll.1
  | .unregisterFunction name => (s.unregisterFunction name).1
  | .evaluate formula => (s.evaluate formula).1
  | .update _ | .install _ | .registerFunction _ | .restore _ | .wait _ => ()

/-- What a sheet shows without being changed. -/
def view (s : Sheet) : View where
  find? := s.find?
  findByName? := s.findByName?
  all := s.all
  size := s.size
  dependenciesOf := s.dependenciesOf
  dependentsOf := s.dependentsOf
  checkCycles := s.checkCycles
  snapshot := s.snapshot
  context := s.evaluator.context
  registry := s.evaluator.setting.registry

/-- The sheet with another memo. -/
def withMemo (s : Sheet) (m : Memo) : Sheet :=
  { s with evaluator := { s.evaluator with memo := m } }

end Sheet

/-- A sound memo mirrors itself. -/
theorem Memo.Sound.mirrors {setting : Setting} {m : Memo} (h : m.Sound setting) :
    Memo.Mirrors setting m m :=
  ⟨rfl, fun _ _ => rfl, h, h⟩

/-- Twins may change places. -/
theorem Memo.Mirrors.symm {setting : Setting} {m₁ m₂ : Memo} (h : Mirrors setting m₁ m₂) :
    Mirrors setting m₂ m₁ :=
  ⟨h.random.symm, fun key unsteady => (h.results key unsteady).symm, h.sound₂, h.sound₁⟩

/-- Memos mirror each other at another time of the host if the setting has its
own. -/
theorem Memo.Mirrors.atClock {setting : Setting} (timed : setting.currentTime.isSome = true)
    (clock : Float) {m₁ m₂ : Memo} (h : Mirrors setting m₁ m₂) :
    Mirrors (setting.atClock clock) m₁ m₂ := by
  have steady : (setting.atClock clock).Steady = setting.Steady := by
    funext text outcome
    unfold Setting.Steady
    rw [Setting.reduce_congr (Setting.call_atClock timed clock maxCallDepth)]
  obtain ⟨random, results, sound₁, sound₂⟩ := h
  unfold Memo.Sound at sound₁ sound₂
  rw [← steady] at results sound₁ sound₂
  exact ⟨random, results, sound₁, sound₂⟩

namespace Evaluator

variable {e : Evaluator} {m : Memo}

/-- A change of the registry forgets every result. -/
theorem withRegistry_memo (random : m.random = e.memo.random) (r : Registry) :
    { e with memo := m }.withRegistry r = e.withRegistry r := by
  have clear : m.clear = e.memo.clear := congrArg (Memo.mk .empty) random
  unfold withRegistry
  rw [clear]

/-- So does a change of the context. -/
theorem update_memo (random : m.random = e.memo.random) (u : ContextUpdate) :
    { e with memo := m }.update u = e.update u := by
  have clear : m.clear = e.memo.clear := congrArg (Memo.mk .empty) random
  unfold update
  rw [clear, random]

end Evaluator

namespace Sheet

/-- The sheets differ in what their evaluators remember, and there only where
it does not show. -/
def Twin (s t : Sheet) : Prop :=
  ∃ m, t = s.withMemo m ∧ Memo.Mirrors s.evaluator.setting s.evaluator.memo m

/-- What is visible of a sheet does not depend on what its evaluator remembers. -/
theorem view_withMemo (s : Sheet) {m : Memo} (random : m.random = s.evaluator.memo.random) :
    (s.withMemo m).view = s.view := by
  have context : (s.withMemo m).evaluator.context = s.evaluator.context := by
    unfold withMemo Evaluator.context
    rw [random]
  unfold view
  rw [context]
  rfl

section Changes

variable (s : Sheet) (m : Memo)

/-- A registration does not look at what the evaluator remembers. -/
theorem register_withMemo (v : Variable) :
    (s.withMemo m).register v = (s.register v).map (·.withMemo m) := by
  have names : (s.withMemo m).names = s.names := rfl
  unfold register
  dsimp only
  rw [names]
  split
  · split <;> rfl
  · rfl

/-- Neither does a removal. -/
theorem unregister_withMemo (id : String) : (s.withMemo m).unregister id =
    ((s.unregister id).1, (s.unregister id).2.withMemo m) := by
  have definitions : (s.withMemo m).definitions = s.definitions := rfl
  unfold unregister
  rw [definitions]
  split <;> rfl

/-- Nor does setting a value. -/
theorem set_withMemo (id : String) (value : Value) :
    (s.withMemo m).set id value = (s.set id value).map (·.withMemo m) := by
  have definitions : (s.withMemo m).definitions = s.definitions := rfl
  have setting : (s.withMemo m).evaluator.setting = s.evaluator.setting := rfl
  unfold set
  rw [definitions, setting]
  repeat' split
  all_goals rfl

/-- Nor does restoring a snapshot. -/
theorem restore_withMemo (p : Snapshot) :
    (s.withMemo m).restore p = (s.restore p).withMemo m := by
  have invalidated : ∀ ids : List String,
      ids.foldl invalidate (s.withMemo m) = (ids.foldl invalidate s).withMemo m :=
    fun ids => List.foldl_hom (fun t : Sheet => t.withMemo m) fun _ _ => rfl
  have definitions : (s.withMemo m).definitions = s.definitions := rfl
  unfold restore
  rw [definitions]
  dsimp only
  rw [invalidated]
  rfl

end Changes

/-- Reading with memos that mirror each other has the same result, leaves the
same values, and memos that mirror each other. -/
theorem readFrom_memo (s : Sheet) (id : String) (values : Table Value) {m₁ m₂ : Memo}
    (h : Memo.Mirrors s.evaluator.setting m₁ m₂) :
    (s.readFrom (s.size + 1) [] id ⟨values, m₂⟩).1 =
        (s.readFrom (s.size + 1) [] id ⟨values, m₁⟩).1 ∧
      (s.readFrom (s.size + 1) [] id ⟨values, m₂⟩).2.values =
        (s.readFrom (s.size + 1) [] id ⟨values, m₁⟩).2.values ∧
      Memo.Mirrors s.evaluator.setting (s.readFrom (s.size + 1) [] id ⟨values, m₁⟩).2.memo
        (s.readFrom (s.size + 1) [] id ⟨values, m₂⟩).2.memo := by
  have parallel := readFrom_mirrors (.start s)
  obtain ⟨same, there⟩ :=
    parallel id ⟨values, m₁⟩ ⟨values, m₂⟩ (by simp) ⟨fun _ => .inl rfl, h⟩
  obtain ⟨_, back⟩ :=
    parallel id ⟨values, m₂⟩ ⟨values, m₁⟩ (by simp) ⟨fun _ => .inl rfl, h.symm⟩
  refine ⟨same, ?_, there.memo⟩
  apply Table.ext_get?
  intro other
  rcases there.values other with same | ⟨missing₂, _, _⟩
  · exact same
  · rcases back.values other with same | ⟨missing₁, _, _⟩
    · exact same.symm
    · rw [missing₁, missing₂]

namespace Twin

variable {s t : Sheet}

/-- A sheet that has forgotten its results is its own twin. -/
theorem of_empty (h : s.evaluator.memo.results = .empty) : Twin s s :=
  ⟨s.evaluator.memo, rfl, (Memo.Coherent.sound (Memo.coherent_of_empty h)).mirrors⟩

/-- Twins look alike. -/
theorem view_eq (h : Twin s t) : t.view = s.view := by
  obtain ⟨m, rfl, hm⟩ := h
  exact s.view_withMemo hm.random

/-- Where a change that leaves the evaluator alone may fail, it fails for both
and leaves twins. -/
theorem of_result {m : Memo} (hm : Memo.Mirrors s.evaluator.setting s.evaluator.memo m)
    {result : Except SheetError Sheet}
    (evaluator : ∀ {s'}, result = .ok s' → s'.evaluator = s.evaluator) :
    ((result.map (·.withMemo m)).map fun _ => ()) = (result.map fun _ => ()) ∧
      Twin (result.toOption.getD s) ((result.map (·.withMemo m)).toOption.getD (s.withMemo m)) := by
  cases result with
  | error e => exact ⟨rfl, m, rfl, hm⟩
  | ok s' =>
      refine ⟨rfl, m, rfl, ?_⟩
      change Memo.Mirrors s'.evaluator.setting s'.evaluator.memo m
      rw [evaluator rfl]
      exact hm

/-- A read answers the same of twins, and leaves twins. -/
theorem read (h : Twin s t) (id : String) :
    (t.read id).1 = (s.read id).1 ∧ Twin (s.read id).2 (t.read id).2 := by
  obtain ⟨m, rfl, hm⟩ := h
  obtain ⟨same, values, memo⟩ := s.readFrom_memo id s.values hm
  have reads : (s.withMemo m).readFrom (s.size + 1) [] = s.readFrom (s.size + 1) [] :=
    readFrom_congr (s := s) (t := s.withMemo m) rfl rfl rfl _ _
  have size : (s.withMemo m).size = s.size := rfl
  have held : (s.withMemo m).held = ⟨s.values, m⟩ := rfl
  unfold Sheet.read
  dsimp only
  rw [size, reads, held]
  refine ⟨same, _, ?_, memo⟩
  unfold withHeld withMemo
  dsimp only
  rw [values]
  rfl

/-- So does a read of several variables in turn. -/
theorem readInto (values : Table Value) (vs : List Variable) (h : Twin s t) :
    (readInto values vs t).1 = (readInto values vs s).1 ∧
      Twin (readInto values vs s).2 (readInto values vs t).2 := by
  induction vs generalizing values s t with
  | nil => exact ⟨rfl, h⟩
  | cons v vs ih =>
      obtain ⟨same, next⟩ := h.read v.id
      unfold Sheet.readInto
      rcases hs : s.read v.id with ⟨result, s'⟩
      rcases ht : t.read v.id with ⟨result', t'⟩
      rw [hs, ht] at same next
      dsimp only at same next
      subst same
      cases result' with
      | error e => exact ⟨rfl, next⟩
      | ok value => exact ih (values.insert v.name value) next

/-- A formula evaluates to the same on twins, and leaves twins. -/
theorem evaluate (h : Twin s t) (formula : String) :
    (t.evaluate formula).1 = (s.evaluate formula).1 ∧
      Twin (s.evaluate formula).2 (t.evaluate formula).2 := by
  obtain ⟨m, rfl, hm⟩ := h
  unfold Sheet.evaluate Evaluator.evaluate Evaluator.evaluateWith
  have bindings : (s.withMemo m).evaluator.bindings = s.evaluator.bindings := rfl
  have setting : (s.withMemo m).evaluator.setting = s.evaluator.setting := rfl
  have memo : (s.withMemo m).evaluator.memo = m := rfl
  rw [bindings]
  rcases (Outline.ofText (formulaBody formula.toList)).substituteTable s.evaluator.bindings with
    ⟨text, names⟩
  obtain ⟨same, hm'⟩ := hm.conclude text
  dsimp only
  rw [setting, memo, same]
  exact ⟨rfl, _, rfl, hm'⟩

/-- A variable is registered with both twins or with neither. -/
theorem register (h : Twin s t) (v : Variable) :
    ((t.register v).map fun _ => ()) = ((s.register v).map fun _ => ()) ∧
      Twin ((s.register v).toOption.getD s) ((t.register v).toOption.getD t) := by
  obtain ⟨m, rfl, hm⟩ := h
  rw [register_withMemo]
  apply of_result hm
  intro s' h
  obtain ⟨_, rfl⟩ := register_eq_ok.mp h
  rfl

/-- A variable leaves both twins. -/
theorem unregister (h : Twin s t) (id : String) :
    (t.unregister id).1 = (s.unregister id).1 ∧
      Twin (s.unregister id).2 (t.unregister id).2 := by
  obtain ⟨m, rfl, hm⟩ := h
  have evaluator : (s.unregister id).2.evaluator = s.evaluator := by
    unfold Sheet.unregister
    split <;> rfl
  rw [unregister_withMemo]
  refine ⟨rfl, m, rfl, ?_⟩
  rw [evaluator]
  exact hm

/-- A value is set in both twins or in neither. -/
theorem set (h : Twin s t) (id : String) (value : Value) :
    ((t.set id value).map fun _ => ()) = ((s.set id value).map fun _ => ()) ∧
      Twin ((s.set id value).toOption.getD s) ((t.set id value).toOption.getD t) := by
  obtain ⟨m, rfl, hm⟩ := h
  rw [set_withMemo]
  apply of_result hm
  intro s' h
  obtain ⟨_, _, _, _, _, rfl⟩ := set_eq_ok.mp h
  rfl

/-- So is a value that is set by name. -/
theorem setByName (h : Twin s t) (name : String) (value : Value) :
    ((t.setByName name value).map fun _ => ()) = ((s.setByName name value).map fun _ => ()) ∧
      Twin ((s.setByName name value).toOption.getD s)
        ((t.setByName name value).toOption.getD t) := by
  have names : t.names = s.names := by
    obtain ⟨m, rfl, _⟩ := h
    rfl
  unfold Sheet.setByName
  rw [names]
  cases s.names.get? name with
  | none => exact ⟨rfl, h⟩
  | some id => exact h.set id value

/-- A read by name is one by id, or fails in both. -/
theorem readByName (h : Twin s t) (name : String) :
    (t.readByName name).1 = (s.readByName name).1 ∧
      Twin (s.readByName name).2 (t.readByName name).2 := by
  have names : t.names = s.names := by
    obtain ⟨m, rfl, _⟩ := h
    rfl
  unfold Sheet.readByName
  rw [names]
  cases s.names.get? name with
  | none => exact ⟨rfl, h⟩
  | some id => exact h.read id

/-- Twins have the same values. -/
theorem readAll (h : Twin s t) :
    t.readAll.1 = s.readAll.1 ∧ Twin s.readAll.2 t.readAll.2 := by
  have all : t.all = s.all := by
    obtain ⟨m, rfl, _⟩ := h
    rfl
  unfold Sheet.readAll
  rw [all]
  exact h.readInto .empty s.all

/-- A change of the context keeps twins. -/
theorem update (h : Twin s t) (u : ContextUpdate) : Twin (s.update u) (t.update u) := by
  obtain ⟨m, rfl, hm⟩ := h
  have same : (s.withMemo m).evaluator.update u = s.evaluator.update u :=
    Evaluator.update_memo hm.random u
  unfold Sheet.update
  rw [same]
  exact @of_empty (s.withEvaluator (s.evaluator.update u)) (s.evaluator.results_update u)

/-- A change of the registry makes twins equal. -/
theorem withRegistry (h : Twin s t) (change : Registry → Registry) :
    Twin (s.withEvaluator (s.evaluator.withRegistry (change s.evaluator.setting.registry)))
      (t.withEvaluator (t.evaluator.withRegistry (change t.evaluator.setting.registry))) := by
  obtain ⟨m, rfl, hm⟩ := h
  have same : ∀ r, (s.withMemo m).evaluator.withRegistry r = s.evaluator.withRegistry r :=
    Evaluator.withRegistry_memo hm.random
  have registry : (s.withMemo m).evaluator.setting.registry = s.evaluator.setting.registry := rfl
  rw [same, registry]
  exact @of_empty
    (s.withEvaluator (s.evaluator.withRegistry (change s.evaluator.setting.registry))) rfl

/-- So does a library that is installed in both. -/
theorem install (h : Twin s t) (l : Library) : Twin (s.install l) (t.install l) := by
  obtain ⟨m, rfl, hm⟩ := h
  have blank : ∀ (fs : List Callable) (e : Evaluator), e.memo.results = .empty →
      (fs.foldl Evaluator.register e).memo.results = .empty := by
    intro fs
    induction fs with
    | nil => exact fun e he => he
    | cons f fs ih => exact fun e _ => ih (e.register f) rfl
  unfold Sheet.install Library.install
  cases l.callables with
  | nil => exact ⟨m, rfl, hm⟩
  | cons f fs =>
      -- the first function makes the evaluators equal
      have same : (s.withMemo m).evaluator.register f = s.evaluator.register f :=
        Evaluator.withRegistry_memo hm.random _
      rw [List.foldl_cons, List.foldl_cons, same]
      exact @of_empty (s.withEvaluator (fs.foldl Evaluator.register (s.evaluator.register f)))
        (blank fs _ rfl)

/-- So does a snapshot that both take in. -/
theorem restore (h : Twin s t) (p : Snapshot) : Twin (s.restore p) (t.restore p) := by
  obtain ⟨m, rfl, hm⟩ := h
  rw [restore_withMemo]
  refine ⟨m, rfl, ?_⟩
  rw [evaluator_restore]
  exact hm

/-- The clock does not tell twins apart where the time is set. -/
theorem atClock (h : Twin s t) (timed : s.evaluator.setting.currentTime.isSome = true)
    (clock : Float) : Twin (s.atClock clock) (t.atClock clock) := by
  obtain ⟨m, rfl, hm⟩ := h
  exact ⟨m, rfl, hm.atClock timed clock⟩

/-- **No operation tells twins apart**: it is answered alike and leaves
twins. -/
theorem apply (h : Twin s t) {op : Operation} (timed : s.Timed op) :
    t.answer op = s.answer op ∧ Twin (s.apply op) (t.apply op) := by
  have registry : t.evaluator.setting.registry = s.evaluator.setting.registry := by
    obtain ⟨m, rfl, _⟩ := h
    rfl
  cases op with
  | register v => exact h.register v
  | unregister id => exact h.unregister id
  | set id value => exact h.set id value
  | setByName name value => exact h.setByName name value
  | read id => exact h.read id
  | readByName name => exact h.readByName name
  | readAll => exact h.readAll
  | update u => exact ⟨rfl, h.update u⟩
  | install l => exact ⟨rfl, h.install l⟩
  | registerFunction f => exact ⟨rfl, h.withRegistry fun r => r.register f⟩
  | unregisterFunction name =>
      exact ⟨congrArg (·.find? name) registry, h.withRegistry fun r => r.unregister name⟩
  | evaluate formula => exact h.evaluate formula
  | restore p => exact ⟨rfl, h.restore p⟩
  | wait clock => exact ⟨rfl, h.atClock timed clock⟩

/-- **No operations tell twins apart.** -/
theorem run {ops : List Operation} (h : Twin s t) (timely : s.Timely ops) :
    Twin (s.run ops) (t.run ops) := by
  induction ops generalizing s t with
  | nil => exact h
  | cons op ops ih => exact ih (h.apply timely.1).2 timely.2

end Twin

end Sheet

end FormulaSheet
