import FormulaSheet.Proofs.Lookalike
import FormulaSheet.Proofs.Replica

/-!
# A snapshot takes the place of a history

A new sheet is made from the variables of another and is given its snapshot.
Nothing that is done to both from then on tells them apart, whatever had been
done to the first: all that it has besides is what its evaluator remembers, and
that does not show.

The snapshot may go through text, if the text is read as the tree that it was
written for and decoding does not change the values.  Two are given that it does
change: the one NaN that is read takes the place of another, and a number takes
the place of an array.

* `Sheet.Alike` — whatever is done to both sheets, they show the same;
* `Sheet.Reaches.alike_restore` — a sheet, and one made from its variables and
  its snapshot.
-/

namespace FormulaSheet.Sheet

/-- Whatever operations are applied to both sheets, they show the same and
answer the next operation alike. -/
def Alike (s t : Sheet) : Prop :=
  ∀ ops, s.Timely ops → (t.run ops).view = (s.run ops).view ∧
    ∀ op, (s.run ops).Timed op → (t.run ops).answer op = (s.run ops).answer op

/-- Twins are alike. -/
theorem Twin.alike {s t : Sheet} (h : Twin s t) : Alike s t := by
  intro ops timely
  have after := h.run timely
  exact ⟨after.view_eq, fun op timed => (after.apply timed).1⟩

/-- Operations that are timed one after another lead to a sheet that is
reached. -/
theorem Timely.reaches {start s : Sheet} (h : Reaches Timed start s) {ops : List Operation}
    (timely : s.Timely ops) : Reaches Timed start (s.run ops) := by
  induction ops generalizing s with
  | nil => exact h
  | cons op ops ih => exact ih (.step h timely.1) timely.2

/-- **A snapshot takes the place of a history.**  A new sheet on the same host,
with the variables of another registered in any order and an evaluator with the
same functions and the same context, is given the snapshot of the other.  It
then has that snapshot itself, and the two are alike.  The evaluators have drawn
no random numbers by then, and time passes only where they were given their
time.  A plain snapshot can be given as text that is read as its tree. -/
theorem Reaches.alike_restore {host : Host} {registry : Registry} {c : Context} {e : Evaluator}
    (he : Evaluator.Reaches (.create host registry c) e) {s : Sheet}
    (h : Reaches Timed (ofEvaluator e) s) (quiet : s.drawn = 0)
    {host' : Host} {registry' : Registry} {c' : Context} {e' : Evaluator}
    (he' : Evaluator.Reaches (.create host' registry' c') e') (quiet' : e'.drawn = 0)
    (hosts : e'.setting.host = s.evaluator.setting.host)
    (registries : e'.setting.registry = s.evaluator.setting.registry)
    (contexts : e'.context = s.evaluator.context)
    {vs : List Variable} (perm : vs.Perm s.definitions.values) :
    ((ofVariables e' vs).restore s.snapshot).snapshot = s.snapshot ∧
      Alike s ((ofVariables e' vs).restore s.snapshot) ∧
      ∀ t : JsonText, t.Keeps s.snapshot.toJson → s.snapshot.Plain →
        Snapshot.ofText? t (s.snapshot.toText t) = some s.snapshot := by
  -- draws are never taken back, so there were none at the beginning either
  have undrawn : e.drawn = 0 := by
    have le := h.le_drawn
    change e.drawn ≤ s.drawn at le
    omega
  have truthful : e.Truthful := ⟨he.coherent (Memo.coherent_of_empty rfl) undrawn⟩
  have truthful' : e'.Truthful := ⟨he'.coherent (Memo.coherent_of_empty rfl) quiet'⟩
  have setting : e'.setting = s.evaluator.setting := by
    have times : e'.setting.currentTime = s.evaluator.setting.currentTime :=
      congrArg Context.currentTime contexts
    calc e'.setting = ⟨e'.setting.registry, e'.setting.currentTime, e'.setting.host⟩ := rfl
      _ = s.evaluator.setting := by rw [hosts, registries, times]
  have bindings : e'.bindings = s.evaluator.bindings := congrArg Context.bindings contexts
  have random : e'.memo.random = s.evaluator.memo.random := by
    have seeds : e'.memo.random.seed = s.evaluator.memo.random.seed :=
      congrArg Context.seed contexts
    have draws : e'.memo.random.drawn = s.evaluator.memo.random.drawn := quiet'.trans quiet.symm
    calc e'.memo.random = ⟨e'.memo.random.seed, e'.memo.random.drawn⟩ := rfl
      _ = s.evaluator.memo.random := by rw [seeds, draws]
  have twin := h.twin_restore truthful (quiet.trans undrawn.symm) truthful' setting bindings random
    perm
  exact ⟨congrArg View.snapshot twin.view_eq, twin.alike,
    fun t kept plain => plain.ofText?_toText kept⟩

/-- A list that a formula makes. -/
def series (id formula : String) : Variable :=
  { Variable.create id id .array with formula := some formula }

/-- The sheet of a price and of a list that is made from it.  The price was
given another name while the list was held, the list another formula, and a
snapshot that was restored holds what no formula gives. -/
def usedSheet : Sheet :=
  (ofEvaluator Evaluator.minuteEvaluator).run
    [.register { Variable.create "price" "price" .number with default := some (.number 0.1) },
      .register (series "list" "[price, price / 0]"), .readAll, .wait 90000,
      .register { Variable.create "price" "cost" .number with default := some (.number 0.2) },
      .register (series "list" "[cost, NOW()]"), .evaluate "1 + 1", .read "list",
      .restore ⟨.ofList [("list", .array [.number (-0.0), .number (.of Number.nan)]),
        ("gone", .null)]⟩]

theorem usedSheet_reached :
    Reaches Timed (ofEvaluator Evaluator.minuteEvaluator) usedSheet := by
  refine Timely.reaches .start ⟨trivial, trivial, trivial, ?_, trivial, trivial, trivial, trivial,
    trivial, trivial⟩
  show Option.isSome _ = true
  decide +kernel

/-- What is done to it in the end. -/
def lastOperations : List Operation := [.set "price" (.number 2), .wait 120000, .readAll]

/-- The text of its snapshot. -/
def usedText : String := "\x7b\"list\":[-0.0,\x7b\"$number\":\"NaN\"\x7d],\"price\":0.2\x7d"

/-- A new sheet is given the text of its snapshot.  Both answer what was
restored at first, and what the formula gives once the price is set. -/
theorem alike_restore_usedSheet :
    let copy := (ofVariables usedSheet.evaluator.anew usedSheet.definitions.values.reverse).restore
      usedSheet.snapshot
    let t : JsonText := .knowing usedSheet.snapshot.toJson usedText
    t.Keeps usedSheet.snapshot.toJson ∧ usedSheet.snapshot.Plain ∧
    Snapshot.ofText? t usedText = some usedSheet.snapshot ∧
    copy.snapshot = usedSheet.snapshot ∧
    ((usedSheet.read "list").1.toOption.any fun w => w.toText == "0,NaN") = true ∧
    copy.answer (.read "list") = usedSheet.answer (.read "list") ∧
    (((usedSheet.run lastOperations).values.get? "list").any fun w =>
      w.equal (.array [.number 2, .number 60000])) = true ∧
    (copy.run lastOperations).view = (usedSheet.run lastOperations).view := by
  intro copy t
  have created : Evaluator.Reaches (.create .still .builtins ⟨.empty, some 60000, none⟩)
      Evaluator.minuteEvaluator := .start
  have anew : ∀ e : Evaluator,
      Evaluator.Reaches (.create e.setting.host e.setting.registry e.context) e.anew ∧
      e.anew.drawn = 0 ∧ e.anew.setting.host = e.setting.host ∧
      e.anew.setting.registry = e.setting.registry ∧ e.anew.context = e.context :=
    fun _ => ⟨.start, rfl, rfl, rfl, rfl⟩
  obtain ⟨fresh, undrawn, host, registry, context⟩ := anew usedSheet.evaluator
  have facts : usedSheet.drawn = 0 ∧ usedSheet.snapshot.Plain ∧
      (usedSheet.apply (.set "price" (.number 2))).evaluator.setting.currentTime.isSome = true := by
    decide +kernel
  obtain ⟨quiet, plain, timed⟩ := facts
  have kept : t.Keeps usedSheet.snapshot.toJson := JsonText.keeps_knowing _ _
  obtain ⟨same, alike, text⟩ := Reaches.alike_restore created usedSheet_reached quiet fresh undrawn
    host registry context (List.reverse_perm _)
  have start : ∀ s : Sheet, s.run [] = s := fun _ => rfl
  have first := (alike [] trivial).2 (.read "list") trivial
  rw [start, start] at first
  have last := (alike lastOperations ⟨trivial, timed, trivial, trivial⟩).1
  exact ⟨kept, plain, text t kept plain, same, by decide +kernel, first, by decide +kernel, last⟩

/-- A sheet with a NaN that was negated. -/
def negatedSheet : Sheet :=
  (ofEvaluator Evaluator.minuteEvaluator).run
    [.register { Variable.create "loss" "loss" .number with formula := some "-NaN" },
      .read "loss"]

/-- A sheet with an array of an object that names a number in a way of its
own. -/
def namingSheet : Sheet :=
  (ofEvaluator Evaluator.minuteEvaluator).run
    [.register (series "tag" "[\x7b\"NaN\": null\x7d]"), .read "tag"]

/-- A new sheet with the variables of another is given its snapshot as text. -/
def copyFrom (s : Sheet) (t : JsonText) : Option Sheet :=
  (Snapshot.ofText? t (s.snapshot.toText t)).map
    ((ofVariables Evaluator.minuteEvaluator s.definitions.values).restore ·)

/-- Neither sheet has a lookalike of a number in it, and their texts are read as
the trees that they were written for.  From one of them a NaN is restored that is
in another place of the total order, from the other a number in place of an
array. -/
theorem copyFrom_negatedSheet_namingSheet :
    (∀ s ∈ [negatedSheet, namingSheet], Reaches Timed (ofEvaluator Evaluator.minuteEvaluator) s ∧
      s.drawn = 0 ∧ ∀ e ∈ s.snapshot.values.entries, e.2.Throughout fun v => v.lookalike? = none) ∧
    (let t : JsonText := .knowing negatedSheet.snapshot.toJson
      "\x7b\"loss\":\x7b\"$number\":\"NaN\"\x7d\x7d"
    let places (s : Sheet) := (s.read "loss").1.toOption.map (·.numbers.map Double.place)
    t.Keeps negatedSheet.snapshot.toJson ∧ places negatedSheet = some [-9221120237041090561] ∧
      (negatedSheet.copyFrom t).map places = some (some [9221120237041090560])) ∧
    (let t : JsonText := .knowing namingSheet.snapshot.toJson
      "\x7b\"tag\":[\x7b\"NaN\":null\x7d]\x7d"
    let kind (s : Sheet) := (s.read "tag").1.toOption.map Value.kind
    t.Keeps namingSheet.snapshot.toJson ∧ kind namingSheet = some "array" ∧
      (namingSheet.copyFrom t).map kind = some (some "number")) := by
  have facts : ∀ s ∈ [negatedSheet, namingSheet], s.drawn = 0 ∧
      ∀ e ∈ s.snapshot.values.entries, e.2.Throughout fun v => v.lookalike? = none := by
    decide +kernel
  have reached : ∀ s ∈ [negatedSheet, namingSheet],
      Reaches Timed (ofEvaluator Evaluator.minuteEvaluator) s := by
    rw [List.forall_mem_cons, List.forall_mem_singleton]
    exact ⟨Timely.reaches .start ⟨trivial, trivial, trivial⟩,
      Timely.reaches .start ⟨trivial, trivial, trivial⟩⟩
  exact ⟨fun s hs => ⟨reached s hs, facts s hs⟩,
    ⟨JsonText.keeps_knowing _ _, by decide +kernel, by decide +kernel⟩,
    ⟨JsonText.keeps_knowing _ _, by decide +kernel, by decide +kernel⟩⟩

end FormulaSheet.Sheet
