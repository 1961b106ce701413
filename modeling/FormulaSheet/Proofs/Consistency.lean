import FormulaSheet.Proofs.Operation
import FormulaSheet.Proofs.Reach
import FormulaSheet.Proofs.Scanning

/-!
# The tables of a sheet

Beside its definitions a sheet keeps a table of names and two graphs, and all
of them are made from the definitions.  Whatever is done to a sheet, renaming
and restoring included, they stay in agreement.

* `Sheet.restore_eq` — restoring a snapshot changes values only;
* `Sheet.Consistent` — the agreement;
* `Sheet.Consistent.apply`, `Sheet.Reaches.consistent` — every operation keeps
  it, so every sheet that is reached from an empty one has it;
* `Sheet.Consistent.mem_next_dependencies`, `…_dependents` — the edges of the
  graphs are the references of the formulas.
-/

namespace FormulaSheet

/-- Making entries from entries under the same keys makes what is found. -/
theorem Entries.find?_filterMap {α β : Type} (f : α → Option β) (key : String) {es : Entries α}
    (asc : es.Ascending) :
    find? key (es.filterMap fun e => (f e.2).map fun b => (e.1, b)) = (find? key es).bind f := by
  induction es with
  | nil => rfl
  | cons e es ih =>
      obtain ⟨k, a⟩ := e
      have rest := ih (List.pairwise_cons.mp asc).2
      by_cases hk : k = key
      · subst hk
        rw [find?_tail_eq_none asc] at rest
        cases hf : f a <;> simp [hf, find?, rest]
      · cases hf : f a <;> simp [hf, find?, hk, rest]

/-- Entries that are mapped or left out stay in order. -/
theorem Entries.ascending_filterMap {α β : Type} (f : α → Option β) {es : Entries α}
    (asc : es.Ascending) :
    Ascending (es.filterMap fun e => (f e.2).map fun b => (e.1, b)) := by
  refine List.Pairwise.filterMap _ ?_ asc
  intro x y lt x' hx y' hy
  obtain ⟨b, _, rfl⟩ := Option.map_eq_some_iff.mp hx
  obtain ⟨c, _, rfl⟩ := Option.map_eq_some_iff.mp hy
  exact lt

namespace Sheet

/-- The formula of `a` refers to `b`. -/
def RefersTo (s : Sheet) (a b : String) : Prop :=
  ∃ v formula, s.definitions.get? a = some v ∧ v.formula = some formula ∧
    ∃ name ∈ (bodyOf formula).mentions, s.names.get? name = some b

/-- A variable refers to what its formula mentions. -/
theorem RefersTo.exists_mention {s : Sheet} {a b formula : String} {v : Variable}
    (href : s.RefersTo a b) (hv : s.definitions.get? a = some v)
    (hformula : v.formula = some formula) :
    ∃ name ∈ (bodyOf formula).mentions, s.names.get? name = some b := by
  obtain ⟨v', formula', hv', hformula', mention⟩ := href
  rw [hv] at hv'
  cases hv'
  rw [hformula] at hformula'
  cases hformula'
  exact mention

/-- What refers to something is derived. -/
theorem RefersTo.isDerived {s : Sheet} {a b : String} (href : s.RefersTo a b) :
    s.isDerived a = true := by
  obtain ⟨v, formula, hv, hformula, _⟩ := href
  exact isDerived_of_formula hv hformula

/-- After a rebuild the dependencies are read off the formulas. -/
theorem get?_dependencies_rebuild (s : Sheet) (id : String) :
    s.rebuild.dependencies.get? id =
      ((s.definitions.get? id).bind (·.formula)).map (FormulaSheet.dependenciesOf s.names) := by
  have entries : s.rebuild.dependencies.entries =
      s.definitions.entries.filterMap fun e =>
        (e.2.formula.map (FormulaSheet.dependenciesOf s.names)).map fun ids => (e.1, ids) := by
    simp only [rebuild, Table.ofList, Option.map_map]
    exact Entries.ofList_eq_self <| by
      simpa [Function.comp_def] using
        Entries.ascending_filterMap
          (fun v : Variable => v.formula.map (FormulaSheet.dependenciesOf s.names))
          s.definitions.ascending
  have found := Entries.find?_filterMap
    (fun v : Variable => v.formula.map (FormulaSheet.dependenciesOf s.names)) id
    s.definitions.ascending
  rw [Table.get?, entries, found, ← Table.get?]
  cases s.definitions.get? id <;> rfl

section Invalidate

/-- Invalidating keeps the values that the change does not reach. -/
theorem get?_values_invalidate (s : Sheet) (id other : String) :
    (s.invalidate id).values.get? other =
      if other ∈ s.dependents.reached id then none else s.values.get? other := by
  unfold invalidate
  dsimp only
  rw [Table.get?_filter]
  by_cases h : other ∈ s.dependents.reached id <;> simp [h]

/-- A value that is left did not depend on what was invalidated. -/
theorem get?_values_invalidate_eq_some {s : Sheet} {id other : String} {w : Value}
    (h : (s.invalidate id).values.get? other = some w) :
    ¬ Graph.Path s.dependents id other ∧ s.values.get? other = some w := by
  rw [get?_values_invalidate] at h
  split at h
  · cases h
  · rename_i off
    exact ⟨fun path => off ((Graph.mem_reached_iff _).mpr path), h⟩

/-- A value that does not depend on it is left. -/
theorem get?_values_invalidate_of_not_path {s : Sheet} {id other : String}
    (h : ¬ Graph.Path s.dependents id other) :
    (s.invalidate id).values.get? other = s.values.get? other := by
  rw [get?_values_invalidate, if_neg fun on => h ((Graph.mem_reached_iff _).mp on)]

/-- Invalidating one id after another drops what depends on any of them. -/
theorem get?_values_foldl_invalidate (ids : List String) (s : Sheet) (other : String) :
    (ids.foldl invalidate s).values.get? other =
      if ∃ id ∈ ids, other ∈ s.dependents.reached id then none else s.values.get? other := by
  induction ids generalizing s with
  | nil => simp
  | cons first ids ih =>
      have later := ih (s.invalidate first)
      have graph : (s.invalidate first).dependents = s.dependents := rfl
      rw [get?_values_invalidate, graph] at later
      rw [List.foldl_cons, later]
      by_cases here : other ∈ s.dependents.reached first <;> simp [here]

/-- Invalidating several ids adds no value. -/
theorem get?_values_foldl_invalidate_eq_some {ids : List String} {s : Sheet} {other : String}
    {w : Value} (h : (ids.foldl invalidate s).values.get? other = some w) :
    s.values.get? other = some w := by
  rw [get?_values_foldl_invalidate] at h
  split at h
  · cases h
  · exact h

/-- It drops whatever depends on one of them. -/
theorem get?_values_foldl_invalidate_of_path {ids : List String} {s : Sheet} {id other : String}
    (hid : id ∈ ids) (path : Graph.Path s.dependents id other) :
    (ids.foldl invalidate s).values.get? other = none := by
  rw [get?_values_foldl_invalidate, if_pos ⟨id, hid, (Graph.mem_reached_iff _).mpr path⟩]

/-- It leaves whatever depends on none. -/
theorem get?_values_foldl_invalidate_of_not_path {ids : List String} {s : Sheet} {other : String}
    (off : ∀ id ∈ ids, ¬ Graph.Path s.dependents id other) :
    (ids.foldl invalidate s).values.get? other = s.values.get? other := by
  rw [get?_values_foldl_invalidate, if_neg]
  rintro ⟨id, hid, on⟩
  exact off id hid ((Graph.mem_reached_iff _).mp on)

/-- Invalidating changes the values only. -/
theorem foldl_invalidate_eq (ids : List String) (s : Sheet) :
    ids.foldl invalidate s = { s with values := (ids.foldl invalidate s).values } := by
  induction ids generalizing s with
  | nil => rfl
  | cons id ids ih => exact ih (s.invalidate id)

end Invalidate

section Restore

/-- The values of a snapshot that are put in place. -/
def known (s : Sheet) (p : Snapshot) : Table Value := p.values.filter s.definitions.contains

/-- Of a snapshot only the values of registered ids are taken. -/
theorem get?_known (s : Sheet) (p : Snapshot) (id : String) : (s.known p).get? id =
    if s.definitions.contains id then p.values.get? id else none :=
  Table.get?_filter p.values s.definitions.contains id

/-- Restoring changes the values only. -/
theorem restore_eq (s : Sheet) (p : Snapshot) : s.restore p =
    { s with values := ((s.known p).keys.foldl invalidate s).values.overlay (s.known p) } := by
  rw [restore, ← known, foldl_invalidate_eq]

/-- A snapshot leaves the evaluator as it is. -/
theorem evaluator_restore (s : Sheet) (p : Snapshot) : (s.restore p).evaluator = s.evaluator := by
  rw [restore_eq]

/-- Restoring puts the values of registered ids over what is left of the
others. -/
theorem get?_values_restore (s : Sheet) (p : Snapshot) (id : String) :
    (s.restore p).values.get? id =
      (if s.definitions.contains id then p.values.get? id else none).or
        (((s.known p).keys.foldl invalidate s).values.get? id) := by
  rw [restore_eq, Table.get?_overlay, get?_known]

end Restore

/-- Only the values and the evaluator may differ. -/
structure SameTables (s s' : Sheet) : Prop where
  definitions : s'.definitions = s.definitions
  names : s'.names = s.names
  dependencies : s'.dependencies = s.dependencies
  dependents : s'.dependents = s.dependents

namespace SameTables

variable {s s' s'' : Sheet}

protected theorem refl (s : Sheet) : SameTables s s := ⟨rfl, rfl, rfl, rfl⟩

protected theorem trans (h : SameTables s s') (h' : SameTables s' s'') : SameTables s s'' :=
  ⟨h'.definitions.trans h.definitions, h'.names.trans h.names,
    h'.dependencies.trans h.dependencies, h'.dependents.trans h.dependents⟩

end SameTables

/-- A snapshot leaves the tables as they are. -/
theorem sameTables_restore (s : Sheet) (p : Snapshot) : SameTables s (s.restore p) := by
  rw [restore_eq]
  exact ⟨rfl, rfl, rfl, rfl⟩

/-- The tables of a sheet agree with its definitions. -/
structure Consistent (s : Sheet) : Prop where
  /-- A definition is filed under its own id. -/
  id_eq : ∀ {id v}, s.definitions.get? id = some v → v.id = id
  /-- Names belong to ids one to one. -/
  name_iff : ∀ {name id}, s.names.get? name = some id ↔
    ∃ v, s.definitions.get? id = some v ∧ v.name = name
  /-- A value is held only for a variable. -/
  held : ∀ {id w}, s.values.get? id = some w → (s.definitions.get? id).isSome
  dependencies : s.dependencies = s.rebuild.dependencies
  dependents : s.dependents = Graph.inverse s.dependencies

namespace Consistent

variable {s s' : Sheet}

/-- The dependencies of an id are the registered variables that its formula refers to. -/
theorem mem_next_dependencies (hs : s.Consistent) {a b : String} :
    b ∈ s.dependencies.next a ↔ s.RefersTo a b := by
  rw [Graph.next, hs.dependencies, get?_dependencies_rebuild]
  constructor
  · intro h
    cases hv : s.definitions.get? a with
    | none => simp [hv] at h
    | some v =>
        cases hf : v.formula with
        | none => simp [hv, hf] at h
        | some formula =>
            simp only [hv, hf, Option.bind_some, Option.map_some, Option.getD_some] at h
            exact ⟨v, formula, hv, hf, mem_dependenciesOf.mp h⟩
  · rintro ⟨v, formula, hv, hf, h⟩
    simp only [hv, hf, Option.bind_some, Option.map_some, Option.getD_some]
    exact mem_dependenciesOf.mpr h

/-- Its dependents are those that refer to it. -/
theorem mem_next_dependents (hs : s.Consistent) {a b : String} :
    b ∈ s.dependents.next a ↔ s.RefersTo b a := by
  rw [hs.dependents, Graph.mem_next_inverse, hs.mem_next_dependencies]

/-- A variable depends on what it is a dependent of. -/
theorem path_dependents (hs : s.Consistent) {a b : String} :
    Graph.Path s.dependents a b ↔ Graph.Path s.dependencies b a := by
  have turned : Graph.Edge s.dependents = Function.swap (Graph.Edge s.dependencies) := by
    funext a b
    exact propext (hs.mem_next_dependents.trans hs.mem_next_dependencies.symm)
  rw [Graph.Path, turned, Relation.transGen_swap, Graph.Path]

/-- Changing values and the evaluator leaves the tables consistent, if values
are held for variables only. -/
theorem of_sameTables (hs : s.Consistent) (same : SameTables s s')
    (held : ∀ {id w}, s'.values.get? id = some w → (s.definitions.get? id).isSome) :
    s'.Consistent where
  id_eq := by
    rw [same.definitions]
    exact hs.id_eq
  name_iff := by
    rw [same.definitions, same.names]
    exact hs.name_iff
  held := by
    rw [same.definitions]
    exact held
  dependencies := by
    rw [same.dependencies, hs.dependencies]
    unfold rebuild
    rw [same.definitions, same.names]
  dependents := by
    rw [same.dependents, same.dependencies, hs.dependents]

/-- A new sheet is consistent. -/
theorem ofEvaluator (e : Evaluator) : (ofEvaluator e).Consistent where
  id_eq := by
    intro id v h
    cases h
  name_iff := by
    intro name id
    constructor
    · intro h
      cases h
    · intro ⟨v, h, _⟩
      cases h
  held := by
    intro id w h
    cases h
  dependencies := rfl
  dependents := rfl

/-- Filtering the values leaves the tables consistent. -/
theorem filter (hs : s.Consistent) (p : String → Bool) :
    Consistent { s with values := s.values.filter p } := by
  refine hs.of_sameTables ⟨rfl, rfl, rfl, rfl⟩ ?_
  intro id w h
  rw [Table.get?_filter] at h
  split at h
  · exact hs.held h
  · cases h

/-- Dropping values keeps the tables consistent. -/
theorem invalidate (hs : s.Consistent) (id : String) : (s.invalidate id).Consistent := hs.filter _

theorem withEvaluator (hs : s.Consistent) (e : Evaluator) : (s.withEvaluator e).Consistent := by
  have other : Consistent { s with evaluator := e } :=
    hs.of_sameTables ⟨rfl, rfl, rfl, rfl⟩ hs.held
  exact other.filter _

/-- Once a variable is filed under a name that is free, names belong to ids one
to one. -/
theorem get?_names_file_iff {v : Variable} (hs : s.Consistent)
    (free : ∀ id, s.names.get? v.name = some id → id = v.id) {name id : String} :
    (s.file v).names.get? name = some id ↔
      ∃ w, (s.file v).definitions.get? id = some w ∧ w.name = name := by
  rw [get?_names_file, get?_definitions_file]
  by_cases hn : v.name = name
  · subst hn
    rw [if_pos rfl]
    constructor
    · intro eq
      cases eq
      exact ⟨v, if_pos rfl, rfl⟩
    · intro ⟨w, hw, eq⟩
      split at hw
      · rename_i hid
        rw [hid]
      · rw [free id (hs.name_iff.mpr ⟨w, hw, eq⟩)]
  · rw [if_neg hn]
    by_cases hid : v.id = id
    · -- the id has only its new name
      subst hid
      rw [if_pos rfl]
      constructor
      · intro hold
        split at hold
        · cases hold
        · rename_i notPrevious
          obtain ⟨w, hw, eq⟩ := hs.name_iff.mp hold
          simp [hw, eq] at notPrevious
      · rintro ⟨w, ⟨⟩, eq⟩
        exact absurd eq hn
    · rw [if_neg hid, ← hs.name_iff]
      split
      · rename_i previous
        constructor
        · intro hnone
          cases hnone
        · intro hsome
          obtain ⟨w, hw, eq⟩ := (Option.any_eq_true _ _).mp previous
          have hold := hs.name_iff.mpr ⟨w, hw, by simpa using eq⟩
          rw [hsome] at hold
          exact absurd (Option.some.inj hold).symm hid
      · exact Iff.rfl

/-- A registration does too, as it rebuilds them. -/
theorem register {v : Variable} (hs : s.Consistent) (h : s.register v = .ok s') :
    s'.Consistent := by
  obtain ⟨free, rfl⟩ := register_eq_ok.mp h
  refine Consistent.invalidate ⟨?_, ?_, ?_, rfl, rfl⟩ v.id
  · intro id w hw
    rw [rebuild, get?_definitions_file] at hw
    split at hw
    · cases hw
      assumption
    · exact hs.id_eq hw
  · exact hs.get?_names_file_iff free
  · intro id w hw
    rw [rebuild, get?_values_file] at hw
    rw [rebuild, get?_definitions_file]
    split
    · rfl
    · rename_i ne
      rw [if_neg ne] at hw
      exact hs.held hw

/-- So does a removal. -/
theorem unregister (hs : s.Consistent) (id : String) : (s.unregister id).2.Consistent := by
  unfold Sheet.unregister
  split
  · exact hs
  · rename_i v hv
    refine ⟨?_, ?_, ?_, rfl, rfl⟩
    · intro other w hw
      simp only [rebuild, Sheet.invalidate, Table.get?_erase] at hw
      split at hw
      · cases hw
      · exact hs.id_eq hw
    · intro name other
      simp only [rebuild, Sheet.invalidate, Table.get?_erase]
      constructor
      · intro hname
        split at hname
        · cases hname
        · rename_i ne
          obtain ⟨w, hw, eq⟩ := hs.name_iff.mp hname
          have hother : other ≠ id := by
            intro eq
            subst eq
            rw [hv] at hw
            cases hw
            exact ne eq.symm
          exact ⟨w, by rw [if_neg hother, hw], eq⟩
      · intro ⟨w, hw, eq⟩
        split at hw
        · cases hw
        · rename_i hother
          have hname := hs.name_iff.mpr ⟨w, hw, eq⟩
          rw [if_neg, hname]
          intro eq
          subst eq
          rw [hs.name_iff.mpr ⟨v, hv, rfl⟩] at hname
          exact hother (Option.some.inj hname).symm
    · intro other w hw
      simp only [rebuild, Sheet.invalidate, Table.get?_erase, Table.get?_filter] at hw ⊢
      split at hw
      · split at hw
        · cases hw
        · rename_i hother
          rw [if_neg hother]
          exact hs.held hw
      · cases hw

/-- Setting a value only drops values, and adds one. -/
theorem set {id : String} {value : Value} (hs : s.Consistent) (h : s.set id value = .ok s') :
    s'.Consistent := by
  obtain ⟨v, hv, _, _, _, rfl⟩ := set_eq_ok.mp h
  have other : Consistent { s with values := s.values.insert id value } := by
    refine hs.of_sameTables ⟨rfl, rfl, rfl, rfl⟩ ?_
    intro other w hw
    rw [Table.get?_insert] at hw
    split at hw
    · rename_i eq
      rw [← eq, hv]
      rfl
    · exact hs.held hw
  exact other.invalidate id

/-- A read only adds values of registered ids. -/
theorem read (hs : s.Consistent) (id : String) : (s.read id).2.Consistent := by
  refine hs.of_sameTables ⟨rfl, rfl, rfl, rfl⟩ ?_
  intro other w hw
  rcases (s.read_grows id).adds hw with held | ⟨derived, _⟩
  · exact hs.held held
  · cases hd : s.definitions.get? other with
    | none => simp [isDerived, hd] at derived
    | some v => rfl

/-- A snapshot adds no value of an unknown id. -/
theorem restore (hs : s.Consistent) (p : Snapshot) : (s.restore p).Consistent := by
  refine hs.of_sameTables (sameTables_restore s p) ?_
  intro id w hw
  rw [get?_values_restore] at hw
  by_cases known : s.definitions.contains id = true
  · exact known
  · rw [if_neg known, Option.none_or] at hw
    exact hs.held (get?_values_foldl_invalidate_eq_some hw)

/-- Every operation keeps the tables consistent. -/
theorem apply (hs : s.Consistent) (op : Operation) : (s.apply op).Consistent :=
  apply_preserves hs hs.register hs.unregister hs.set (fun _ id ht => ht.read id)
    hs.withEvaluator (fun _ => hs.of_sameTables ⟨rfl, rfl, rfl, rfl⟩ hs.held) op
    fun p _ => hs.restore p

end Consistent

/-- The tables of every sheet that is reached from an empty one agree. -/
theorem Reaches.consistent {allowed : Sheet → Operation → Prop} {e : Evaluator} {s : Sheet}
    (h : Reaches allowed (ofEvaluator e) s) : s.Consistent :=
  h.invariant (Consistent.ofEvaluator e) fun _ op hs _ => hs.apply op

end Sheet

end FormulaSheet
