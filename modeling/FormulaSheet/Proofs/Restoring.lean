import FormulaSheet.Proofs.Sources
import FormulaSheet.Proofs.Sweep

/-!
# What restoring a snapshot changes

A snapshot is restored in two passes: everything that depends on one of its ids
is dropped, and then its values are put in place.  Its ids may depend on each
other, or on themselves; the second pass puts back what the first has dropped of
them.  So the ids of the snapshot come out with its values, whatever is on the
cycles they lie on, and of the others those are kept that depend on none of them.

Neither the order of the ids matters nor the order in which a change is followed
along dependents.

* `Sheet.Supplies` — the ids whose values a snapshot replaces;
* `Sheet.get?_values_restore_eq` — the values after a snapshot is restored;
* `Sweep.Places` — the two passes, in any order;
* `Sheet.Reaches.restore_exact` — what restoring changes, and that doing it again
  changes nothing.
-/

namespace FormulaSheet

/-- Entries that are filed in another order are filed over others alike. -/
theorem Table.foldl_insert_of_perm {α : Type} {u : Table α} {es : List (String × α)}
    (perm : es.Perm u.entries) (t : Table α) :
    es.foldl (fun t e => t.insert e.1 e.2) t = t.overlay u := by
  refine perm.foldl_eq' ?_ t
  rintro ⟨k, a⟩ hx ⟨k', a'⟩ hy t
  have first := (u.mem_entries_iff k a).mp (perm.mem_iff.mp hx)
  have second := (u.mem_entries_iff k' a').mp (perm.mem_iff.mp hy)
  apply Table.ext_get?
  intro key
  simp only [get?_insert]
  by_cases hk : k = key <;> by_cases hk' : k' = key <;> simp only [hk, hk', if_true, if_false]
  -- one key has one entry
  rw [hk] at first
  rw [hk', first] at second
  exact second.symm

namespace Sweep

/-- Sweeps from one id after another, each to its end. -/
inductive Runs (g : Graph) : List String → Table Value → Table Value → Prop
  | none {values : Table Value} : Runs g [] values values
  | next {n : Nat} {id : String} {ids : List String} {values left : Table Value} {w : Sweep} :
      Rounds g n (.start id values) w → w.pending = [] → Runs g ids w.values left →
      Runs g (id :: ids) values left

variable {g : Graph}

/-- Sweeps from several ids come to an end. -/
theorem exists_runs (g : Graph) (ids : List String) (values : Table Value) :
    ∃ left, Runs g ids values left := by
  induction ids generalizing values with
  | nil => exact ⟨values, .none⟩
  | cons id ids ih =>
      obtain ⟨n, w, rounds, done⟩ := exists_rounds g (.start id values)
      obtain ⟨left, runs⟩ := ih w.values
      exact ⟨left, .next rounds done runs⟩

/-- From where values are put in place, in some order, sweeps begin in that
order; in the end the values are put in place.  This comes to the same values in
every order, of the ids and of what each sweep visits. -/
structure Places (g : Graph) (given values left : Table Value) : Prop where
  ends : ∀ es : List (String × Value), es.Perm given.entries →
    ∃ swept, Runs g (es.map (·.1)) values swept
  values_eq : ∀ (es : List (String × Value)) swept, es.Perm given.entries →
    Runs g (es.map (·.1)) values swept → es.foldl (fun t e => t.insert e.1 e.2) swept = left

end Sweep

namespace Sheet

variable {s : Sheet}

/-- Sweeps from one id after another leave what invalidating leaves. -/
theorem values_of_runs {ids : List String} {left : Table Value}
    (runs : Sweep.Runs s.dependents ids s.values left) :
    left = (ids.foldl invalidate s).values := by
  induction ids generalizing s with
  | nil =>
      cases runs
      rfl
  | cons id ids ih =>
      cases runs with
      | next rounds done runs =>
          have here := (s.sweep_invalidate id).values_eq _ _ rounds done
          rw [here] at runs
          exact ih (s := s.invalidate id) runs

/-- A snapshot has a value for the variable of an id. -/
def Supplies (s : Sheet) (p : Snapshot) (id : String) : Prop :=
  s.definitions.contains id = true ∧ (p.values.get? id).isSome = true

instance (s : Sheet) (p : Snapshot) (id : String) : Decidable (s.Supplies p id) :=
  inferInstanceAs (Decidable (_ ∧ _))

theorem supplies_iff {p : Snapshot} {id : String} :
    s.Supplies p id ↔ ((s.known p).get? id).isSome = true := by
  rw [get?_known, Supplies]
  cases s.definitions.contains id <;> simp

theorem mem_keys_known {p : Snapshot} {id : String} :
    id ∈ (s.known p).keys ↔ s.Supplies p id := by
  rw [supplies_iff]
  simp [Table.keys, Option.isSome_iff_exists, Table.mem_entries_iff]

/-- The values after a snapshot is restored: its own, of registered ids, and of
those before the ones that depend on none of its. -/
theorem get?_values_restore_eq (s : Sheet) (p : Snapshot) (other : String) :
    (∀ value, s.Supplies p other → p.values.get? other = some value →
      (s.restore p).values.get? other = some value) ∧
    (¬ s.Supplies p other → ∀ id, s.Supplies p id → Graph.Path s.dependents id other →
      (s.restore p).values.get? other = none) ∧
    (¬ s.Supplies p other → (∀ id, s.Supplies p id → ¬ Graph.Path s.dependents id other) →
      (s.restore p).values.get? other = s.values.get? other) := by
  have whole := get?_values_restore s p other
  have absent : ¬ s.Supplies p other →
      (if s.definitions.contains other then p.values.get? other else none) = none := by
    intro off
    rw [← get?_known]
    exact Option.not_isSome_iff_eq_none.mp (mt supplies_iff.mpr off)
  refine ⟨?_, ?_, ?_⟩
  · rintro value ⟨registered, -⟩ hvalue
    rw [whole, if_pos registered, hvalue]
    rfl
  · intro off id on path
    rw [whole, absent off, Option.none_or]
    exact get?_values_foldl_invalidate_of_path (mem_keys_known.mpr on) path
  · intro off clear
    rw [whole, absent off, Option.none_or]
    exact get?_values_foldl_invalidate_of_not_path fun id hid => clear id (mem_keys_known.mp hid)

/-- What a snapshot has put in place, it puts in place again, and what it has
dropped is not there any more. -/
theorem values_restore_restore (s : Sheet) (p : Snapshot) :
    ((s.restore p).restore p).values = (s.restore p).values := by
  have same := sameTables_restore s p
  have supplies : ∀ {id}, (s.restore p).Supplies p id ↔ s.Supplies p id := by
    intro id
    rw [Supplies, Supplies, same.definitions]
  apply Table.ext_get?
  intro other
  obtain ⟨given, dropped, -⟩ := get?_values_restore_eq s p other
  obtain ⟨given', dropped', kept'⟩ := get?_values_restore_eq (s.restore p) p other
  by_cases on : s.Supplies p other
  · obtain ⟨value, hvalue⟩ := Option.isSome_iff_exists.mp on.2
    rw [given value on hvalue, given' value (supplies.mpr on) hvalue]
  · by_cases path : ∃ id, s.Supplies p id ∧ Graph.Path s.dependents id other
    · obtain ⟨id, hid, path⟩ := path
      rw [dropped on id hid path, dropped' (mt supplies.mp on) id (supplies.mpr hid)
        (by rw [same.dependents]; exact path)]
    · push Not at path
      refine kept' (mt supplies.mp on) fun id hid clear => path id (supplies.mp hid) ?_
      rw [← same.dependents]
      exact clear

/-- Sweeping and putting in place comes to restoring, in whatever order. -/
theorem places_restore (s : Sheet) (p : Snapshot) :
    Sweep.Places s.dependents (s.known p) s.values (s.restore p).values where
  ends := fun es _ => Sweep.exists_runs s.dependents (es.map (·.1)) s.values
  values_eq := by
    intro es swept perm runs
    rw [Table.foldl_insert_of_perm perm, values_of_runs runs]
    change _ = ((s.known p).keys.foldl invalidate s).values.overlay (s.known p)
    congr 1
    -- what is dropped does not depend on the order of the ids
    have same : ∀ id, id ∈ es.map (·.1) ↔ id ∈ (s.known p).keys :=
      fun id => (perm.map (·.1)).mem_iff
    apply Table.ext_get?
    intro other
    simp only [get?_values_foldl_invalidate, same]

/-- `s'` is `s` with the values of a snapshot in place and without those of what
else depends on them. -/
structure RestoresOnly (s s' : Sheet) (p : Snapshot) : Prop where
  rest : s' = { s with values := s'.values }
  given : ∀ id value, s.definitions.contains id = true → p.values.get? id = some value →
    s'.values.get? id = some value
  dropped : ∀ other, ¬ s.Supplies p other →
    (∃ id, s.Supplies p id ∧ Graph.Path s.dependencies other id) → s'.values.get? other = none
  kept : ∀ other, ¬ s.Supplies p other →
    (∀ id, s.Supplies p id → ¬ Graph.Path s.dependencies other id) →
      s'.values.get? other = s.values.get? other

/-- **Restoring a snapshot changes exactly what it must.**  Every registered id of
the snapshot holds its value then, everything else that depends on one of them
holds none, and nothing else changes; the two passes come to this in any order.
Ids without a variable do not count, and hold nothing.  Restoring the snapshot
once more changes nothing. -/
theorem Reaches.restore_exact {allowed : Sheet → Operation → Prop} {e : Evaluator}
    (h : Reaches allowed (ofEvaluator e) s) (p : Snapshot) :
    s.RestoresOnly (s.restore p) p ∧
    Sweep.Places s.dependents (s.known p) s.values (s.restore p).values ∧
    (∀ id, s.definitions.contains id = false → (s.restore p).values.get? id = none) ∧
    (∀ q : Snapshot, (∀ id, s.definitions.contains id = true →
      q.values.get? id = p.values.get? id) → s.restore q = s.restore p) ∧
    (s.restore p).restore p = s.restore p := by
  have hs := h.consistent
  have same := sameTables_restore s p
  refine ⟨⟨restore_eq s p, ?_, ?_, ?_⟩, places_restore s p, ?_, ?_, ?_⟩
  · intro id value registered hvalue
    exact (get?_values_restore_eq s p id).1 value ⟨registered, by rw [hvalue]; rfl⟩ hvalue
  · rintro other off ⟨id, on, path⟩
    exact (get?_values_restore_eq s p other).2.1 off id on (hs.path_dependents.mpr path)
  · intro other off clear
    exact (get?_values_restore_eq s p other).2.2 off
      fun id on path => clear id on (hs.path_dependents.mp path)
  · intro id unknown
    cases held : (s.restore p).values.get? id with
    | none => rfl
    | some w =>
        have registered := (hs.restore p).held held
        rw [same.definitions, ← Table.contains, unknown] at registered
        cases registered
  · intro q agree
    have same : s.known q = s.known p := by
      apply Table.ext_get?
      intro id
      rw [get?_known, get?_known]
      split
      · rename_i registered
        exact agree id registered
      · rfl
    rw [restore_eq, restore_eq, same]
  · rw [restore_eq (s.restore p) p]
    have values : ((s.restore p).restore p).values = (s.restore p).values :=
      values_restore_restore s p
    rw [restore_eq (s.restore p) p] at values
    dsimp only at values
    rw [values]

/-- Lowering the flag and raising one of the gates that depend on each other: the
other loses its value, and so does what is behind the negation; the title is kept.
With an id that has no variable the snapshot does the same. -/
theorem restore_exact_tangledSheet :
    let p : Snapshot := ⟨Table.ofList [("flag", .bool false), ("tick", .bool true)]⟩
    let q : Snapshot := ⟨p.values.insert "ghost" .null⟩
    tangledSheet.values.keys = ["again", "flag", "title", "tock"] ∧
    tangledSheet.RestoresOnly (tangledSheet.restore p) p ∧
    (tangledSheet.restore p).values.keys = ["flag", "tick", "title"] ∧
    (tangledSheet.restore p).values.get? "tick" = some (.bool true) ∧
    (tangledSheet.restore p).values.get? "tock" = none ∧
    tangledSheet.restore q = tangledSheet.restore p ∧
    (tangledSheet.restore p).restore p = tangledSheet.restore p := by
  intro p q
  obtain ⟨only, -, -, agreeing, again⟩ := Reaches.restore_exact tangledSheet_reached p
  refine ⟨by decide +kernel, only, by decide +kernel,
    only.given "tick" (.bool true) (by decide +kernel) rfl, ?_, agreeing q ?_, again⟩
  · -- one gate refers to the other
    refine only.dropped "tock" (by decide +kernel) ⟨"tick", by decide +kernel, .single ?_⟩
    change "tick" ∈ tangledSheet.dependencies.next "tock"
    decide +kernel
  · intro id registered
    have named : "ghost" ≠ id := by
      rintro rfl
      revert registered
      decide +kernel
    rw [Table.get?_insert, if_neg named]

end Sheet

end FormulaSheet
