import Mathlib.Data.List.Induction
import FormulaSheet.Proofs.Redefinition
import FormulaSheet.Proofs.Tables
import FormulaSheet.Proofs.Transparency

/-!
# The order of registration

A formula may be registered, and read, before what it refers to: it may have
failed then, or have taken a name for text.  Once everything is registered none
of this shows.  What a sheet holds of sources are their defaults, and a
coherent sheet answers as if it held nothing else, so that two sheets with the
same definitions answer alike.

* `Sheet.Continues` — what reading, evaluating and waiting do to a sheet;
* `Sheet.Stocked` — a sheet with these variables, each source at its default;
* `Sheet.stocked_run` — registrations with reads between them lead to one;
* `Sheet.run_registered_perm` — whatever the order was, the answers are the
  same.
-/

namespace FormulaSheet

/-- The variable that an operation registers. -/
def Operation.registered? : Operation → Option Variable
  | .register v => some v
  | _ => none

/-- The variables that operations register, in turn. -/
def registered (ops : List Operation) : List Variable := ops.filterMap Operation.registered?

/-- The operations that set a sheet up or only look at it. -/
def Operation.SetsUp : Operation → Prop
  | .register _ | .read _ | .readByName _ | .readAll | .evaluate _ | .wait _ => True
  | _ => False

namespace Sheet

/-- One operation more is applied to what the others leave. -/
theorem run_concat (s : Sheet) (ops : List Operation) (op : Operation) :
    s.run (ops ++ [op]) = (s.run ops).apply op := by
  simp [run]

/-- What depends on something is derived. -/
theorem Consistent.isDerived_of_path {s : Sheet} (hs : s.Consistent) {a b : String}
    (path : Graph.Path s.dependents a b) : s.isDerived b = true := by
  cases path with
  | single edge => exact (hs.mem_next_dependents.mp edge).isDerived
  | tail _ edge => exact (hs.mem_next_dependents.mp edge).isDerived

/-- Nothing that a change reaches is a source. -/
theorem Consistent.not_path_of_source {s : Sheet} (hs : s.Consistent) {a b : String}
    (source : s.isDerived b = false) : ¬ Graph.Path s.dependents a b := by
  intro path
  rw [hs.isDerived_of_path path] at source
  cases source

section Register

variable {s s' : Sheet} {v : Variable}

/-- A registration that is accepted leaves what it answers. -/
theorem apply_register (h : s.register v = .ok s') : s.apply (.register v) = s' := by
  rw [apply, h]
  rfl

/-- A registration leaves the evaluator as it is. -/
theorem evaluator_register (h : s.register v = .ok s') : s'.evaluator = s.evaluator := by
  obtain ⟨_, rfl⟩ := register_eq_ok.mp h
  rfl

/-- A registration leaves the other sources as they are and begins its own with
its default. -/
theorem values_register_source (hs : s.Consistent) (h : s.register v = .ok s') {id : String}
    (source : s'.isDerived id = false) :
    s'.values.get? id = if v.id = id then v.default else s.values.get? id := by
  have definition := get?_definitions_register h id
  have off := (hs.register h).not_path_of_source (a := v.id) source
  obtain ⟨_, rfl⟩ := register_eq_ok.mp h
  have kept := get?_values_invalidate_of_not_path (s := (s.file v).rebuild) off
  refine (kept.trans (get?_values_file s v id)).trans ?_
  by_cases hid : v.id = id
  · rw [if_pos hid, if_pos hid, Variable.initial?, if_neg]
    rw [if_pos hid] at definition
    simpa [isDerived, definition] using source
  · rw [if_neg hid, if_neg hid]

end Register

/-- Nothing was changed but what was computed and the host's clock. -/
structure Continues (s s' : Sheet) : Prop where
  tables : SameTables s s'
  source : ∀ {id}, s.isDerived id = false → s'.values.get? id = s.values.get? id
  setting : ∃ clock, s'.evaluator.setting = s.evaluator.setting.atClock clock
  le_drawn : s.drawn ≤ s'.drawn
  random : s'.drawn = s.drawn → s'.evaluator.memo.random = s.evaluator.memo.random

namespace Continues

variable {s s' s'' : Sheet}

protected theorem refl (s : Sheet) : Continues s s :=
  ⟨.refl s, fun _ => rfl, ⟨_, rfl⟩, Nat.le_refl _, fun _ => rfl⟩

/-- What goes on reading derives the same ids. -/
theorem isDerived (h : Continues s s') (id : String) : s'.isDerived id = s.isDerived id := by
  rw [Sheet.isDerived, h.tables.definitions, Sheet.isDerived]

protected theorem trans (first : Continues s s') (second : Continues s' s'') :
    Continues s s'' := by
  have le₁ := first.le_drawn
  have le₂ := second.le_drawn
  refine ⟨first.tables.trans second.tables, ?_, ?_, Nat.le_trans le₁ le₂, ?_⟩
  · intro id source
    rw [second.source (by rw [first.isDerived, source]), first.source source]
  · obtain ⟨clock₁, eq₁⟩ := first.setting
    obtain ⟨clock₂, eq₂⟩ := second.setting
    exact ⟨clock₂, by rw [eq₂, eq₁]; rfl⟩
  · intro quiet
    rw [second.random (by omega), first.random (by omega)]

/-- A read goes on from its sheet. -/
theorem read (s : Sheet) (id : String) : Continues s (s.read id).2 := by
  have grows := s.read_grows id
  refine ⟨⟨rfl, rfl, rfl, rfl⟩, fun source => grows.get?_source source, ⟨_, rfl⟩,
    grows.le_drawn, ?_⟩
  exact s.readFrom_random (s.size + 1) [] id s.held

/-- Looking at a sheet continues it. -/
theorem apply {op : Operation} (looks : op.SetsUp) (silent : op.registered? = none) :
    Continues s (s.apply op) := by
  cases op with
  | register v => cases silent
  | read id => exact read s id
  | readByName name =>
      change Continues s (s.readByName name).2
      unfold readByName
      split
      · exact read s _
      · exact .refl s
  | readAll => exact readAll_respects Continues.refl Continues.trans read s
  | evaluate formula =>
      obtain ⟨text, eq⟩ := s.evaluate_eq formula
      change Continues s (s.evaluate formula).2
      rw [eq]
      exact ⟨⟨rfl, rfl, rfl, rfl⟩, fun _ => rfl, ⟨_, rfl⟩,
        s.evaluator.setting.conclude_le_drawn text s.evaluator.memo, Setting.conclude_random⟩
  | wait clock =>
      exact ⟨⟨rfl, rfl, rfl, rfl⟩, fun _ => rfl, ⟨clock, rfl⟩, Nat.le_refl _, fun _ => rfl⟩
  | _ => exact looks.elim

end Continues

/-- The sheet has these variables and no others, and holds of the sources among
them their defaults. -/
structure Stocked (e : Evaluator) (vs : List Variable) (s : Sheet) : Prop where
  reached : Reaches Ordinary (ofEvaluator e) s
  definitions : ∀ {id v}, s.definitions.get? id = some v ↔ v ∈ vs ∧ v.id = id
  source : ∀ {id}, s.isDerived id = false →
    s.values.get? id = (s.definitions.get? id).bind (·.default)
  setting : ∃ clock, s.evaluator.setting = e.setting.atClock clock
  random : s.drawn = e.drawn → s.evaluator.memo.random = e.memo.random

namespace Stocked

variable {e : Evaluator} {vs : List Variable} {s : Sheet}

/-- A new sheet is stocked with nothing. -/
theorem start (e : Evaluator) : Stocked e [] (ofEvaluator e) where
  reached := .start
  definitions := by
    intro id v
    constructor
    · rintro ⟨⟩
    · rintro ⟨⟨⟩, _⟩
  source := fun _ => rfl
  setting := ⟨_, rfl⟩
  random := fun _ => rfl

/-- A stocked sheet is consistent. -/
theorem consistent (h : Stocked e vs s) : s.Consistent := h.reached.consistent

/-- What sets a sheet up and needs the time to be given is ordinary where it
was given to begin with. -/
theorem ordinary (h : Stocked e vs s) {op : Operation} (looks : op.SetsUp)
    (silent : op.registered? = none) (timed : (ofEvaluator e).Timed op) : s.Ordinary op := by
  cases op with
  | register v => cases silent
  | wait clock =>
      obtain ⟨clock', eq⟩ := h.setting
      change s.evaluator.setting.currentTime.isSome = true
      rw [eq]
      exact timed
  | read | readByName | readAll | evaluate => exact trivial
  | _ => exact looks.elim

/-- An operation that only looks leaves the stock as it is. -/
theorem continued (h : Stocked e vs s) {op : Operation} (looks : op.SetsUp)
    (silent : op.registered? = none) (timed : (ofEvaluator e).Timed op) :
    Stocked e vs (s.apply op) := by
  have next : Continues s (s.apply op) := .apply looks silent
  have le₁ : e.drawn ≤ s.drawn := h.reached.le_drawn
  have le₂ := next.le_drawn
  refine ⟨.step h.reached (h.ordinary looks silent timed), ?_, ?_, ?_, ?_⟩
  · rw [next.tables.definitions]
    exact h.definitions
  · intro id source
    rw [next.isDerived] at source
    rw [next.source source, next.tables.definitions, h.source source]
  · obtain ⟨clock₁, eq₁⟩ := h.setting
    obtain ⟨clock₂, eq₂⟩ := next.setting
    exact ⟨clock₂, by rw [eq₂, eq₁]; rfl⟩
  · intro quiet
    rw [next.random (by omega), h.random (by omega)]

/-- A variable with a new id and a new name is accepted. -/
theorem register (h : Stocked e vs s) {v : Variable} (newId : v.id ∉ vs.map (·.id))
    (newName : v.name ∉ vs.map (·.name)) : Stocked e (vs ++ [v]) (s.apply (.register v)) := by
  have unknown : s.definitions.get? v.id = none := by
    cases known : s.definitions.get? v.id with
    | none => rfl
    | some w =>
        obtain ⟨hw, same⟩ := h.definitions.mp known
        exact absurd (List.mem_map.mpr ⟨w, hw, same⟩) newId
  obtain ⟨s', accepted⟩ : ∃ s', s.register v = .ok s' := by
    refine ⟨_, register_eq_ok.mpr ⟨?_, rfl⟩⟩
    intro id hid
    obtain ⟨w, hw, same⟩ := h.consistent.name_iff.mp hid
    exact absurd (List.mem_map.mpr ⟨w, (h.definitions.mp hw).1, same⟩) newName
  have reached : Reaches Ordinary (ofEvaluator e) (s.apply (.register v)) := by
    refine .step h.reached ?_
    intro s' previous _ hprevious
    rw [unknown] at hprevious
    cases hprevious
  have evaluator : s'.evaluator = s.evaluator := evaluator_register accepted
  rw [apply_register accepted] at reached ⊢
  refine ⟨reached, ?_, ?_, by rw [evaluator]; exact h.setting, ?_⟩
  · intro id w
    rw [get?_definitions_register accepted, List.mem_append, List.mem_singleton]
    by_cases hid : v.id = id
    · rw [if_pos hid]
      constructor
      · rintro ⟨⟩
        exact ⟨.inr rfl, hid⟩
      · rintro ⟨old | rfl, same⟩
        · exact absurd (List.mem_map.mpr ⟨w, old, same.trans hid.symm⟩) newId
        · rfl
    · rw [if_neg hid, h.definitions]
      constructor
      · rintro ⟨old, same⟩
        exact ⟨.inl old, same⟩
      · rintro ⟨old | rfl, same⟩
        · exact ⟨old, same⟩
        · exact absurd same hid
  · intro id source
    by_cases hid : v.id = id
    · subst hid
      rw [values_register_source h.consistent accepted source, get?_definitions_register accepted,
        if_pos rfl, if_pos rfl]
      rfl
    · have same := get?_definitions_register accepted id
      rw [if_neg hid] at same
      have source' : s.isDerived id = false := by
        rw [Sheet.isDerived, same] at source
        exact source
      rw [values_register_source h.consistent accepted source, if_neg hid, same, h.source source']
  · rw [Sheet.drawn, evaluator]
    exact h.random

/-- Without a draw, sheets with the same variables answer every read alike. -/
theorem fst_read_eq {ws : List Variable} {t : Sheet} (hs : Stocked e vs s)
    (ht : Stocked e ws t) (he : e.memo.Coherent e.setting)
    (timed : e.setting.currentTime.isSome = true) (same : SameTables s t)
    (quiet : s.drawn = e.drawn) (quiet' : t.drawn = e.drawn) (id : String) :
    (t.read id).1 = (s.read id).1 := by
  have coherent := hs.reached.coherent_of_memo he quiet
  have coherent' := ht.reached.coherent_of_memo he quiet'
  have conclude : t.evaluator.setting.conclude = s.evaluator.setting.conclude := by
    obtain ⟨clock, eq⟩ := hs.setting
    obtain ⟨clock', eq'⟩ := ht.setting
    rw [eq, eq', Setting.conclude_atClock timed, Setting.conclude_atClock timed]
  have derived : ∀ id, t.isDerived id = s.isDerived id := by
    intro id
    rw [Sheet.isDerived, same.definitions, Sheet.isDerived]
  have values : t.forget.values = s.forget.values := by
    apply Table.ext_get?
    intro id
    have forgotten := Table.get?_filter s.values (fun id => !s.isDerived id) id
    have forgotten' := Table.get?_filter t.values (fun id => !t.isDerived id) id
    refine forgotten'.trans (Eq.trans ?_ forgotten.symm)
    rw [derived]
    cases source : s.isDerived id with
    | true => rfl
    | false =>
        simp only [Bool.not_false, if_true]
        rw [hs.source source, ht.source (by rw [derived, source]), same.definitions]
  have random : t.forget.evaluator.memo = s.forget.evaluator.memo :=
    congrArg (Memo.mk .empty) ((ht.random quiet').trans (hs.random quiet).symm)
  rw [← coherent.fst_read_eq, ← coherent'.fst_read_eq, fst_read, fst_read]
  have size : t.forget.size = s.forget.size := congrArg Table.size same.definitions
  rw [readFrom_congr (s := s.forget) (t := t.forget) same.definitions same.names conclude, size,
    held, values, random, held]

end Stocked

/-- **Registrations lead to a sheet with what was registered**, whatever is
looked at between them. -/
theorem stocked_run {e : Evaluator} {ops : List Operation} (setsUp : ∀ op ∈ ops, op.SetsUp)
    (timed : ∀ op ∈ ops, (ofEvaluator e).Timed op)
    (ids : ((registered ops).map (·.id)).Nodup) (names : ((registered ops).map (·.name)).Nodup) :
    Stocked e (registered ops) ((ofEvaluator e).run ops) := by
  induction ops using List.reverseRecOn with
  | nil => exact .start e
  | append_singleton ops op ih =>
      have all : registered (ops ++ [op]) = registered ops ++ registered [op] :=
        List.filterMap_append
      rw [all, List.map_append] at ids names
      have before := ih (fun op h => setsUp op (List.mem_append_left _ h))
        (fun op h => timed op (List.mem_append_left _ h)) ids.of_append_left
        names.of_append_left
      have last : op ∈ ops ++ [op] := List.mem_append_right _ List.mem_cons_self
      rw [run_concat, all]
      cases h : op.registered? with
      | some v =>
          have one : registered [op] = [v] := by simp [registered, h]
          have op_eq : op = .register v := by
            cases op <;> cases h
            rfl
          rw [one] at ids names ⊢
          rw [op_eq]
          refine before.register ?_ ?_
          · intro old
            exact (List.disjoint_of_nodup_append ids) old (List.mem_singleton.mpr rfl)
          · intro old
            exact (List.disjoint_of_nodup_append names) old (List.mem_singleton.mpr rfl)
      | none =>
          have none : registered [op] = [] := by simp [registered, h]
          rw [none, List.append_nil]
          exact before.continued (setsUp op last) h (timed op last)

/-- **The order of registration does not show.**  Variables of different ids
and different names are registered in two orders in sheets with one evaluator,
whatever is read, evaluated or waited for in between.  The sheets list the same
variables, have the same dependencies, dependents and cycles, and answer every
read alike, as long as no random number is drawn and the evaluator is given its
time. -/
theorem run_registered_perm {host : Host} {registry : Registry} {c : Context} {e : Evaluator}
    (he : Evaluator.Reaches (.create host registry c) e)
    (timed : e.setting.currentTime.isSome = true) {ops₁ ops₂ : List Operation}
    (setsUp₁ : ∀ op ∈ ops₁, op.SetsUp) (setsUp₂ : ∀ op ∈ ops₂, op.SetsUp)
    (perm : (registered ops₁).Perm (registered ops₂))
    (ids : ((registered ops₁).map (·.id)).Nodup) (names : ((registered ops₁).map (·.name)).Nodup)
    (quiet₁ : ((ofEvaluator e).run ops₁).drawn = 0)
    (quiet₂ : ((ofEvaluator e).run ops₂).drawn = 0) :
    ((ofEvaluator e).run ops₂).all = ((ofEvaluator e).run ops₁).all ∧
    ((ofEvaluator e).run ops₂).checkCycles = ((ofEvaluator e).run ops₁).checkCycles ∧
    ∀ id,
      ((ofEvaluator e).run ops₂).dependenciesOf id =
        ((ofEvaluator e).run ops₁).dependenciesOf id ∧
      ((ofEvaluator e).run ops₂).dependentsOf id = ((ofEvaluator e).run ops₁).dependentsOf id ∧
      (((ofEvaluator e).run ops₂).read id).1 = (((ofEvaluator e).run ops₁).read id).1 := by
  have always : ∀ op, (ofEvaluator e).Timed op := by
    intro op
    cases op with
    | wait clock => exact timed
    | _ => exact trivial
  have stocked₁ := stocked_run setsUp₁ (fun op _ => always op) ids names
  have stocked₂ := stocked_run setsUp₂ (fun op _ => always op) ((perm.map _).nodup_iff.mp ids)
    ((perm.map _).nodup_iff.mp names)
  have undrawn : e.drawn = 0 := by
    have le : e.drawn ≤ ((ofEvaluator e).run ops₁).drawn := stocked₁.reached.le_drawn
    omega
  have coherent : e.memo.Coherent e.setting :=
    he.coherent (Memo.coherent_of_empty rfl) undrawn
  have definitions : ((ofEvaluator e).run ops₂).definitions =
      ((ofEvaluator e).run ops₁).definitions := by
    apply Table.ext_get?
    intro id
    apply Option.ext
    intro v
    rw [stocked₁.definitions, stocked₂.definitions, perm.mem_iff]
  have same := stocked₁.consistent.sameTables stocked₂.consistent definitions
  refine ⟨?_, ?_, ?_⟩
  · rw [all, same.names, same.definitions, all]
  · have nameOf : ((ofEvaluator e).run ops₂).nameOf = ((ofEvaluator e).run ops₁).nameOf := by
      funext id
      rw [Sheet.nameOf, same.definitions, Sheet.nameOf]
    rw [checkCycles, same.dependencies, nameOf, checkCycles]
  · intro id
    refine ⟨?_, ?_, ?_⟩
    · rw [dependenciesOf, same.dependencies, dependenciesOf]
    · rw [dependentsOf, same.dependents, dependentsOf]
    · exact stocked₁.fst_read_eq stocked₂ coherent timed same (quiet₁.trans undrawn.symm)
        (quiet₂.trans undrawn.symm) id

/-- A source with its id for a name. -/
def word (id text : String) : Variable :=
  { Variable.create id id .text with default := some (.text text) }

/-- A formula is read before what it refers to is there, and takes the name for
text; another refers to itself. -/
def hasty : List Operation :=
  [.register (gate "loud" "UPPER(word)"), .read "loud", .wait 90000,
    .register (gate "loop" "!loop"), .readAll, .register (word "word" "yes")]

/-- The same variables, the formulas last and nothing read. -/
def patient : List Operation :=
  [.register (word "word" "yes"), .register (gate "loop" "!loop"),
    .register (gate "loud" "UPPER(word)")]

/-- In its haste the sheet has held another value for the formula than it
answers in the end. -/
theorem run_hasty_patient :
    ((((ofEvaluator Evaluator.minuteEvaluator).run (hasty.take 2)).values.get? "loud").any
      fun w => w.equal (.text "WORD")) = true ∧
    ((((ofEvaluator Evaluator.minuteEvaluator).run patient).read "loud").1.toOption.any
      fun w => w.equal (.text "YES")) = true ∧
    (((ofEvaluator Evaluator.minuteEvaluator).run patient).read "loud").1 =
      (((ofEvaluator Evaluator.minuteEvaluator).run hasty).read "loud").1 ∧
    ((ofEvaluator Evaluator.minuteEvaluator).run patient).checkCycles =
      ((ofEvaluator Evaluator.minuteEvaluator).run hasty).checkCycles := by
  have setsUp₁ : ∀ op ∈ hasty, op.SetsUp := by simp [hasty, Operation.SetsUp]
  have setsUp₂ : ∀ op ∈ patient, op.SetsUp := by simp [patient, Operation.SetsUp]
  have perm : (registered hasty).Perm (registered patient) := List.reverse_perm (registered patient)
  have created : Evaluator.Reaches (.create .still .builtins ⟨.empty, some 60000, none⟩)
      Evaluator.minuteEvaluator := .start
  obtain ⟨_, cycles, answers⟩ := run_registered_perm created rfl setsUp₁ setsUp₂ perm
    (by decide) (by decide) (by decide +kernel) (by decide +kernel)
  exact ⟨by decide +kernel, by decide +kernel, (answers "loud").2.2, cycles⟩

end Sheet

end FormulaSheet
