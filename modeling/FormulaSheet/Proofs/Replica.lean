import FormulaSheet.Proofs.Sources
import FormulaSheet.Proofs.Twin

/-!
# Restoring a snapshot elsewhere

A snapshot holds no more than values.  A new sheet in which the variables of
another one are registered holds the defaults of its sources, and once it is
given what the other one holds, it holds just that: a source of the other sheet
that has a default holds some value, whatever was done to it.  What the
evaluator remembers is all that the two then differ in, and it does not show.

* `Sheet.Reaches.truthful` — what is remembered is what texts come to, also
  where snapshots were restored and variables renamed;
* `Sheet.ofVariables` — a new sheet with given variables;
* `Sheet.Reaches.twin_restore` — with the snapshot restored it is a twin.
-/

namespace FormulaSheet

/-- Every result that an evaluator remembers is what its text comes to. -/
structure Evaluator.Truthful (e : Evaluator) : Prop where
  coherent : e.memo.Coherent e.setting

theorem Evaluator.Truthful.of_empty {e : Evaluator} (h : e.memo.results = .empty) : e.Truthful :=
  ⟨Memo.coherent_of_empty h⟩

namespace Sheet

/-- Reading without a draw keeps an evaluator truthful. -/
theorem truthful_read {s : Sheet} (hs : s.evaluator.Truthful) (id : String)
    (quiet : (s.read id).2.drawn = s.drawn) : (s.read id).2.evaluator.Truthful := by
  have step := readFrom_quietly (s := s)
    (Q := fun m m' => m.Coherent s.evaluator.setting → m'.Coherent s.evaluator.setting)
    (fun _ h => h) (fun first second h => second (first h))
    (fun text _ quiet h => (Setting.conclude_quiet text h quiet).2) (s.size + 1) [] id s.held
  exact ⟨step.quiet quiet hs.coherent⟩

/-- A timed operation without a draw keeps an evaluator truthful, whatever it
does to values and names. -/
theorem truthful_apply {s : Sheet} (hs : s.evaluator.Truthful) {op : Operation}
    (timed : s.Timed op) (quiet : (s.apply op).drawn = s.drawn) :
    (s.apply op).evaluator.Truthful := by
  have led := s.leads op
  generalize s.apply op = s' at led quiet ⊢
  cases led with
  | nowhere => exact hs
  | register h => exact (evaluator_register h).symm ▸ hs
  | unregister id =>
      unfold unregister
      split <;> exact hs
  | set h =>
      obtain ⟨_, _, _, _, _, rfl⟩ := set_eq_ok.mp h
      exact hs
  | read id => exact truthful_read hs id quiet
  | readAll =>
      exact readAll_quietly (P := fun s => s.evaluator.Truthful)
        (fun _ id quiet h => truthful_read h id quiet) hs quiet
  | withEvaluator _ forgets _ =>
      obtain rfl | empty := forgets
      · exact hs
      · exact .of_empty empty
  | conclude text => exact ⟨(Setting.conclude_quiet text hs.coherent quiet).2⟩
  | restore p => exact (s.evaluator_restore p).symm ▸ hs
  | wait clock => exact ⟨fun held => (hs.coherent held).atClock timed clock⟩

/-- **Timed operations without a draw keep an evaluator truthful.** -/
theorem Reaches.truthful {e : Evaluator} (he : e.Truthful) {s : Sheet}
    (h : Reaches Timed (ofEvaluator e) s) (quiet : s.drawn = e.drawn) :
    s.evaluator.Truthful := by
  induction h with
  | start => exact he
  | @step s op hreach timed ih =>
      have before : e.drawn ≤ s.drawn := hreach.le_drawn
      have after := apply_le_drawn s op
      exact truthful_apply (ih (by omega)) timed (by omega)

/-- A new sheet in which variables were registered, in turn. -/
def ofVariables (e : Evaluator) (vs : List Variable) : Sheet :=
  (ofEvaluator e).run (vs.map .register)

/-- Where nothing was read only defaults are held. -/
theorem ofVariables_holds (e : Evaluator) (vs : List Variable) :
    (ofVariables e vs).evaluator = e ∧
      ∀ id w, (ofVariables e vs).values.get? id = some w →
        ∃ v, (ofVariables e vs).definitions.get? id = some v ∧ v.initial? = some w := by
  refine List.foldlRecOn (vs.map Operation.register) apply
    (motive := fun s : Sheet => s.evaluator = e ∧ ∀ id w, s.values.get? id = some w →
      ∃ v, s.definitions.get? id = some v ∧ v.initial? = some w) ⟨rfl, ?_⟩ ?_
  · rintro id w ⟨⟩
  · intro s ⟨evaluator, holds⟩ op hop
    obtain ⟨v, _, rfl⟩ := List.mem_map.mp hop
    cases h : s.register v with
    | error cause =>
        have refused : s.apply (.register v) = s := by
          rw [apply, h]
          rfl
        rw [refused]
        exact ⟨evaluator, holds⟩
    | ok s' =>
        rw [apply_register h]
        refine ⟨(evaluator_register h).trans evaluator, ?_⟩
        intro id w hw
        rw [get?_definitions_register h]
        obtain ⟨_, rfl⟩ := register_eq_ok.mp h
        have filed := (get?_values_invalidate_eq_some hw).2
        have file := get?_values_file s v id
        by_cases hid : v.id = id
        · rw [if_pos hid] at file ⊢
          exact ⟨v, rfl, file.symm.trans filed⟩
        · rw [if_neg hid] at file ⊢
          exact holds id w (file.symm.trans filed)

/-- Where only defaults are held, the values of a sheet with the same variables
take the place of all of them. -/
theorem values_restore {s t : Sheet} (hs : s.Consistent) (seeded : s.Seeded)
    (definitions : t.definitions = s.definitions)
    (holds : ∀ id w, t.values.get? id = some w →
      ∃ v, t.definitions.get? id = some v ∧ v.initial? = some w) :
    (t.restore s.snapshot).values = s.values := by
  apply Table.ext_get?
  intro id
  rw [get?_values_restore, definitions]
  cases held : s.values.get? id with
  | some w =>
      have known : s.definitions.contains id = true := hs.held held
      rw [if_pos known, snapshot, held]
      rfl
  | none =>
      rw [snapshot, held, ite_self, Option.none_or, Option.eq_none_iff_forall_ne_some]
      intro d left
      -- a default that is left is that of a source that holds a value
      obtain ⟨v, hv, initial⟩ := holds id d (get?_values_foldl_invalidate_eq_some left)
      rw [definitions] at hv
      have value := seeded id v d hv initial
      rw [held] at value
      cases value

/-- A definition is found under its id. -/
theorem Consistent.get?_of_mem_values {s : Sheet} (hs : s.Consistent) {v : Variable}
    (hv : v ∈ s.definitions.values) : s.definitions.get? v.id = some v := by
  obtain ⟨⟨key, w⟩, he, rfl⟩ := List.mem_map.mp hv
  have hget := (Table.mem_entries_iff _ _ _).mp he
  have own := hs.id_eq hget
  dsimp only at own ⊢
  rw [own]
  exact hget

/-- The definitions of a sheet have different ids and different names. -/
theorem Consistent.nodup_definitions {s : Sheet} (hs : s.Consistent) :
    (s.definitions.values.map (·.id)).Nodup ∧ (s.definitions.values.map (·.name)).Nodup := by
  have ids : s.definitions.values.map (·.id) = s.definitions.keys := by
    rw [Table.values, List.map_map, Table.keys]
    apply List.map_congr_left
    intro entry he
    exact hs.id_eq ((Table.mem_entries_iff s.definitions entry.1 entry.2).mp he)
  have nodup : (s.definitions.values.map (·.id)).Nodup := by
    rw [ids]
    refine List.Pairwise.map _ ?_ s.definitions.ascending
    intro x y lt eq
    rw [eq] at lt
    exact String.lt_irrefl _ lt
  refine ⟨nodup, (nodup.of_map _).map_on ?_⟩
  intro v hv w hw same
  have hname := hs.name_iff.mpr ⟨v, hs.get?_of_mem_values hv, rfl⟩
  rw [same, hs.name_iff.mpr ⟨w, hs.get?_of_mem_values hw, rfl⟩] at hname
  have hid := Option.some.inj hname
  have hv' := hs.get?_of_mem_values hv
  rw [← hid, hs.get?_of_mem_values hw] at hv'
  exact (Option.some.inj hv').symm

/-- **Restoring a snapshot elsewhere makes a twin.**  With the variables of a
sheet registered in a new one, whose evaluator has the same functions and the
same context, and with the snapshot of the first restored in it, the two sheets
differ in what their evaluators remember, and there only where it does not
show. -/
theorem Reaches.twin_restore {e : Evaluator} (he : e.Truthful) {s : Sheet}
    (h : Reaches Timed (ofEvaluator e) s) (quiet : s.drawn = e.drawn) {e' : Evaluator}
    (he' : e'.Truthful) (setting : e'.setting = s.evaluator.setting)
    (bindings : e'.bindings = s.evaluator.bindings)
    (random : e'.memo.random = s.evaluator.memo.random) {vs : List Variable}
    (perm : vs.Perm s.definitions.values) :
    Twin s ((ofVariables e' vs).restore s.snapshot) := by
  have hs := h.consistent
  have registers : registered (vs.map Operation.register) = vs := by
    rw [registered, List.filterMap_map]
    exact List.filterMap_some
  obtain ⟨ids, names⟩ := hs.nodup_definitions
  have stocked : Stocked e' (registered (vs.map Operation.register)) (ofVariables e' vs) := by
    refine stocked_run ?_ ?_ ?_ ?_
    · simp [Operation.SetsUp]
    · simp [Timed]
    · rw [registers]
      exact (perm.map _).nodup_iff.mpr ids
    · rw [registers]
      exact (perm.map _).nodup_iff.mpr names
  rw [registers] at stocked
  obtain ⟨evaluator, holds⟩ := ofVariables_holds e' vs
  have definitions : (ofVariables e' vs).definitions = s.definitions := by
    apply Table.ext_get?
    intro id
    apply Option.ext
    intro v
    rw [stocked.definitions, perm.mem_iff]
    constructor
    · rintro ⟨hv, rfl⟩
      exact hs.get?_of_mem_values hv
    · intro hv
      exact ⟨List.mem_map.mpr ⟨_, (Table.mem_entries_iff _ _ _).mpr hv, rfl⟩, hs.id_eq hv⟩
  have values := values_restore hs h.seeded definitions holds
  have tables := (hs.sameTables stocked.consistent definitions).trans
    (sameTables_restore (ofVariables e' vs) s.snapshot)
  have memo : ((ofVariables e' vs).restore s.snapshot).evaluator =
      { s.evaluator with memo := e'.memo } := by
    refine (((ofVariables e' vs).evaluator_restore s.snapshot).trans evaluator).trans ?_
    dsimp only
    rw [← setting, ← bindings]
  have truthful : e'.memo.Coherent s.evaluator.setting := by
    rw [← setting]
    exact he'.coherent
  have truthful₀ : s.evaluator.memo.Coherent s.evaluator.setting := (h.truthful he quiet).coherent
  refine ⟨e'.memo, ?_, Memo.Coherent.mirrors truthful₀ truthful random⟩
  rw [withMemo, ← memo, ← values, ← tables.definitions, ← tables.names, ← tables.dependencies,
    ← tables.dependents]

end Sheet

end FormulaSheet
