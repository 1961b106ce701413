import FormulaSheet.Proofs.Grounding
import FormulaSheet.Proofs.Registration

/-!
# What sources hold

The definition under an id can be replaced, made a formula and a source again,
removed and registered anew, while a value is kept under the id.  What a source
holds always belongs to the definition that it has now: a registration begins
with the default, and from then on only what the definition admits is set.
Reading and invalidating leave sources alone.

Nothing is asked of a default, nor of the values of a snapshot.

* `Variable.Admits` — the values that a type and rules let pass;
* `Sheet.Supplied` — where the value of a source comes from in one operation;
* `Sheet.apply_source` — it comes from nowhere else;
* `Sheet.Reaches.seeded` — a source with a default holds a value;
* `Sheet.Reaches.source_admitted` — without a snapshot this is the default or a
  value that is admitted.
-/

namespace FormulaSheet

/-- The type accepts a value and no rule is broken, patterns taken as the host
takes them. -/
structure Variable.Admits (regex : Regex) (v : Variable) (w : Value) : Prop where
  accepts : v.type.accepts w = true
  passes : ∀ r, v.rules = some r → r.check regex w = none

/-- What begins with a value is a source with a default. -/
theorem Variable.initial?_eq_some_iff {v : Variable} {d : Value} :
    v.initial? = some d ↔ v.isDerived = false ∧ v.default = some d := by
  cases derived : v.isDerived <;> simp [Variable.initial?, derived]

namespace Sheet

/-- Where the value of a source comes from in one operation: it was held before
under the same definition, it is the default, or it was given. -/
inductive Supplied (s : Sheet) (op : Operation) (id : String) (v : Variable) :
    Option Value → Prop
  | kept {held : Option Value} :
      s.definitions.get? id = some v → held = s.values.get? id → Supplied s op id v held
  | begun : Supplied s op id v v.default
  | given {w : Value} :
      v.Admits s.evaluator.setting.host.regex w → Supplied s op id v (some w)
  | restored {p : Snapshot} {w : Value} :
      op = .restore p → p.values.get? id = some w → Supplied s op id v (some w)

namespace Supplied

variable {s : Sheet} {op : Operation} {id : String} {v : Variable} {held : Option Value}

/-- A source that has a default comes to some value, if it held one before. -/
theorem isSome {d : Value} (h : s.Supplied op id v held) (hdefault : v.default = some d)
    (before : s.definitions.get? id = some v → (s.values.get? id).isSome = true) :
    held.isSome = true := by
  cases h with
  | kept hv same => exact same ▸ before hv
  | begun => exact hdefault ▸ rfl
  | given => rfl
  | restored => rfl

/-- Without a snapshot a source comes to its default or to what it admits, if
this was so before. -/
theorem admitted (h : s.Supplied op id v held) (unrestored : s.Unrestored op)
    (before : s.definitions.get? id = some v → ∀ w, s.values.get? id = some w →
      v.default = some w ∨ v.Admits s.evaluator.setting.host.regex w) :
    ∀ w, held = some w → v.default = some w ∨ v.Admits s.evaluator.setting.host.regex w := by
  cases h with
  | kept hv same => exact fun w hw => before hv w (same.symm.trans hw)
  | begun => exact fun w => .inl
  | given admits =>
      rintro w ⟨⟩
      exact .inr admits
  | restored restores => exact (restores ▸ unrestored).elim

end Supplied

section Supplied

variable {s s' : Sheet} {op : Operation} {id : String} {v : Variable}

/-- A registration supplies the default of its variable, and leaves the other sources. -/
theorem supplied_register {w : Variable} (hs : s.Consistent) (h : s.register w = .ok s')
    (hv : s'.definitions.get? id = some v) (source : v.isDerived = false) :
    s.Supplied op id v (s'.values.get? id) := by
  have definition := get?_definitions_register h id
  rw [values_register_source hs h ((isDerived_eq hv).trans source)]
  rw [hv] at definition
  by_cases hid : w.id = id
  · rw [if_pos hid] at definition ⊢
    cases definition
    exact .begun
  · rw [if_neg hid] at definition ⊢
    exact .kept definition.symm rfl

/-- A removal supplies nothing. -/
theorem supplied_unregister (hs : s.Consistent) (gone : String)
    (hv : (s.unregister gone).2.definitions.get? id = some v) (source : v.isDerived = false) :
    s.Supplied op id v ((s.unregister gone).2.values.get? id) := by
  unfold Sheet.unregister at hv ⊢
  split at hv
  · exact .kept hv rfl
  · rename_i w _
    simp only [rebuild, Sheet.invalidate, Table.get?_erase] at hv
    split at hv
    · cases hv
    · rename_i ne
      have off := hs.not_path_of_source (a := gone) ((isDerived_eq hv).trans source)
      have kept := get?_values_invalidate_of_not_path (s := { s with
        definitions := s.definitions.erase gone
        names := s.names.erase w.name
        values := s.values.erase gone }) off
      dsimp only at kept
      rw [Table.get?_erase, if_neg ne] at kept
      exact .kept hv kept

/-- Setting a value gives it to one source, and leaves the others. -/
theorem supplied_set {given : String} {value : Value} (hs : s.Consistent)
    (h : s.set given value = .ok s') (hv : s'.definitions.get? id = some v)
    (source : v.isDerived = false) : s.Supplied op id v (s'.values.get? id) := by
  have values := get?_values_set h id
  obtain ⟨w, hw, _, accepts, passes, rfl⟩ := set_eq_ok.mp h
  have definition : s.definitions.get? id = some v := hv
  have off := hs.not_path_of_source (a := given) ((isDerived_eq definition).trans source)
  rw [values, if_neg (mt (Graph.mem_reached_iff _).mp off)]
  by_cases hid : given = id
  · subst hid
    rw [if_pos rfl]
    rw [definition] at hw
    cases hw
    refine .given ⟨accepts, ?_⟩
    intro r hr
    rw [hr] at passes
    exact passes
  · rw [if_neg hid]
    exact .kept definition rfl

/-- A change of the evaluator supplies nothing. -/
theorem supplied_withEvaluator (e : Evaluator) (hv : s.definitions.get? id = some v)
    (source : v.isDerived = false) : s.Supplied op id v ((s.withEvaluator e).values.get? id) := by
  have filtered := Table.get?_filter s.values (fun id => !s.isDerived id) id
  simp only [isDerived_eq hv, source, Bool.not_false, if_true] at filtered
  exact .kept hv filtered

/-- A snapshot supplies the values that it has of registered ids. -/
theorem supplied_restore (hs : s.Consistent) {p : Snapshot} (restores : op = .restore p)
    (hv : s.definitions.get? id = some v) (source : v.isDerived = false) :
    s.Supplied op id v ((s.restore p).values.get? id) := by
  have off := fun a => hs.not_path_of_source (a := a) ((isDerived_eq hv).trans source)
  rw [get?_values_restore, get?_values_foldl_invalidate_of_not_path fun a _ => off a]
  split
  · cases given : p.values.get? id with
    | some w => exact .restored restores given
    | none => exact .kept hv rfl
  · exact .kept hv rfl

/-- **In one operation a source comes to a value in one of these ways.** -/
theorem apply_source (hs : s.Consistent) (op : Operation)
    (hv : (s.apply op).definitions.get? id = some v) (source : v.isDerived = false) :
    s.Supplied op id v ((s.apply op).values.get? id) := by
  revert hv
  apply apply_preserves
    (P := fun t => t.definitions.get? id = some v → s.Supplied op id v (t.values.get? id))
  case hs => exact fun hv => .kept hv rfl
  case register => exact fun h hv => supplied_register hs h hv source
  case unregister => exact fun gone hv => supplied_unregister hs gone hv source
  case set => exact fun h hv => supplied_set hs h hv source
  case read =>
    intro t other supplied hv
    -- reading holds computed values only
    have same := (t.read_grows other).get?_source ((isDerived_eq hv).trans source)
    exact same ▸ supplied hv
  case withEvaluator => exact fun e hv => supplied_withEvaluator e hv source
  case evaluator => exact fun _ hv => .kept hv rfl
  case restore =>
    intro p restores hv
    rw [(sameTables_restore s p).definitions] at hv
    exact supplied_restore hs restores hv source

end Supplied

/-- Every source with a default holds a value. -/
def Seeded (s : Sheet) : Prop :=
  ∀ id v d, s.definitions.get? id = some v → v.initial? = some d →
    (s.values.get? id).isSome = true

/-- Every source with a default holds a value in every sheet that is reached. -/
theorem Reaches.seeded {allowed : Sheet → Operation → Prop} {e : Evaluator} {s : Sheet}
    (h : Reaches allowed (ofEvaluator e) s) : s.Seeded := by
  induction h with
  | start =>
      intro id v d hv
      cases hv
  | @step s op hreach _ ih =>
      intro id v d hv initial
      obtain ⟨source, hdefault⟩ := Variable.initial?_eq_some_iff.mp initial
      exact (apply_source hreach.consistent op hv source).isSome hdefault
        fun before => ih id v d before initial

/-- No operation changes how patterns are taken. -/
theorem regex_apply (s : Sheet) (op : Operation) :
    (s.apply op).evaluator.setting.host.regex = s.evaluator.setting.host.regex := by
  have led := s.leads op
  generalize s.apply op = s' at led ⊢
  cases led with
  | nowhere => rfl
  | register h => rw [evaluator_register h]
  | unregister id =>
      unfold Sheet.unregister
      cases s.definitions.get? id <;> rfl
  | set h =>
      obtain ⟨_, _, _, _, _, rfl⟩ := set_eq_ok.mp h
      rfl
  | read id => rfl
  | readAll =>
      exact readAll_respects (R := fun s s' =>
        s'.evaluator.setting.host.regex = s.evaluator.setting.host.regex) (fun _ => rfl)
        (fun first second => second.trans first) (fun _ _ => rfl) s
  | withEvaluator host _ _ => exact congrArg Host.regex host
  | conclude text => rfl
  | restore p => rw [evaluator_restore]
  | wait clock => rfl

/-- The regular expressions of the host stay what they are. -/
theorem Reaches.regex_eq {allowed : Sheet → Operation → Prop} {start s : Sheet}
    (h : Reaches allowed start s) :
    s.evaluator.setting.host.regex = start.evaluator.setting.host.regex := by
  induction h with
  | start => rfl
  | step _ _ ih => exact (regex_apply _ _).trans ih

/-- **What a source holds is its default, or it admits it.**  Whatever its
definition was before, and whatever was read, refused or removed in between: as
long as no snapshot was restored, the value that a source holds is the default
of its definition or a value that its type and its rules let pass, patterns taken
as the host takes them, and one that holds none has no default. -/
theorem Reaches.source_admitted {e : Evaluator} {s : Sheet}
    (h : Reaches Unrestored (ofEvaluator e) s) {id : String} {v : Variable}
    (hv : s.find? id = some v) (source : v.isDerived = false) :
    (∀ w, s.values.get? id = some w → v.default = some w ∨ v.Admits e.setting.host.regex w) ∧
      (s.values.get? id = none → v.default = none) := by
  refine ⟨?_, ?_⟩
  · induction h generalizing v with
    | start => cases hv
    | step hreach unrestored ih =>
        have regex : _ = e.setting.host.regex := hreach.regex_eq
        rw [← regex] at ih ⊢
        exact (apply_source hreach.consistent _ hv source).admitted unrestored
          fun before => ih before source
  · intro missing
    rw [Option.eq_none_iff_forall_ne_some]
    intro d hdefault
    have held := h.seeded id v d hv (Variable.initial?_eq_some_iff.mpr ⟨source, hdefault⟩)
    rw [missing] at held
    cases held

/-- A text of at most three characters with a b in it, and a default that is no
text. -/
def code : Variable :=
  { Variable.create "code" "code" .text with
    default := some (.bool true)
    rules := some { Rules.unrestricted with maxLength := some 3, pattern := some "b" } }

/-- The code was a formula that was read; the flag loses its default; a tag takes
the rules of the code.  What they do not admit is refused. -/
def changedSheet : Sheet :=
  (ofEvaluator plainEvaluator).run
    [.register (gate "code" "!flag"), .register flag, .read "code", .register code,
      .set "code" (.text "long"), .register { flag with default := none },
      .set "flag" (.text "up"), .register { code with id := "tag", name := "tag", default := none },
      .set "tag" (.text "ab"), .setByName "tag" (.text "abcd"), .readAll]

/-- The changed sheet is reached by operations. -/
theorem changedSheet_reached : Reaches Unrestored (ofEvaluator plainEvaluator) changedSheet :=
  Reaches.start.run (by simp [Unrestored])

/-- The code holds its default, which it would refuse, and not what the formula
came to; the tag holds the one value that it was given and admits; the flag
holds none. -/
theorem source_admitted_changedSheet :
    (∃ v w, changedSheet.find? "code" = some v ∧ changedSheet.values.get? "code" = some w ∧
      v.type.accepts w = false ∧ v.default = some w) ∧
    (∃ v w, changedSheet.find? "tag" = some v ∧ changedSheet.values.get? "tag" = some w ∧
      v.default = none ∧ v.Admits Host.still.regex w) ∧
    ∃ v, changedSheet.find? "flag" = some v ∧ changedSheet.values.get? "flag" = none ∧
      v.default = none := by
  have code : (changedSheet.find? "code").any (fun v => !v.isDerived &&
      (changedSheet.values.get? "code").any fun w => !v.type.accepts w) = true := by
    decide +kernel
  have tag : (changedSheet.find? "tag").any (fun v => !v.isDerived && v.default.isNone) = true ∧
      (changedSheet.values.get? "tag").isSome = true := by
    decide +kernel
  have flag : (changedSheet.find? "flag").any (fun v => !v.isDerived) = true ∧
      (changedSheet.values.get? "flag").isNone = true := by
    decide +kernel
  simp only [Bool.and_eq_true, Option.any_eq_true, Bool.not_eq_true', Option.isNone_iff_eq_none,
    Option.isSome_iff_exists] at code tag flag
  refine ⟨?_, ?_, ?_⟩
  · obtain ⟨v, hv, source, w, hw, refused⟩ := code
    refine ⟨v, w, hv, hw, refused, ?_⟩
    refine ((Reaches.source_admitted changedSheet_reached hv source).1 w hw).resolve_right ?_
    intro admits
    rw [admits.accepts] at refused
    cases refused
  · obtain ⟨⟨v, hv, source, missing⟩, w, hw⟩ := tag
    refine ⟨v, w, hv, hw, missing, ?_⟩
    refine ((Reaches.source_admitted changedSheet_reached hv source).1 w hw).resolve_left ?_
    rw [missing]
    nofun
  · obtain ⟨⟨v, hv, source⟩, missing⟩ := flag
    exact ⟨v, hv, missing, (Reaches.source_admitted changedSheet_reached hv source).2 missing⟩

end Sheet

end FormulaSheet
