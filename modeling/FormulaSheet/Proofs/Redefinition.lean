import FormulaSheet.Proofs.Freshness

/-!
# Redefining a variable

Registering an id again drops what is reached from it along the dependents of
the *new* definitions.  Under the name that it had, these are all that depended
on it before: an edge is lost only if it leads to the id itself, and no path
from the id needs it.  Under another name the references to the old name are
gone before anything is dropped, and what was computed through them stays.

* `Sheet.get?_values_register` — the values after a registration;
* `Sheet.Reaches.register_dropsDependents_iff` — exactly when everything that
  depended on an id is dropped.
-/

namespace FormulaSheet

/-- A path to another place survives as long as the edges to other places than
its beginning do. -/
theorem Graph.Path.of_edges {g g' : Graph} {a b : String}
    (hedge : ∀ {c d}, Edge g c d → d ≠ a → Edge g' c d) (path : Path g a b) (ne : b ≠ a) :
    Path g' a b := by
  induction path with
  | single edge => exact .single (hedge edge ne)
  | @tail c d _ edge ih =>
      by_cases hc : c = a
      · subst hc
        exact .single (hedge edge ne)
      · exact (ih hc).tail (hedge edge ne)

namespace Sheet

/-- Nothing that depended on an id in one sheet has a computed value in
another. -/
def DropsDependents (s s' : Sheet) (id : String) : Prop :=
  ∀ other, s'.isDerived other = true → Graph.Path s.dependents id other →
    s'.values.get? other = none

section Register

variable {s s' : Sheet} {v : Variable}

/-- A registration keeps the values that the new definitions do not reach. -/
theorem get?_values_register (h : s.register v = .ok s') {other : String} (ne : other ≠ v.id) :
    s'.values.get? other =
      if other ∈ s'.dependents.reached v.id then none else s.values.get? other := by
  obtain ⟨_, rfl⟩ := register_eq_ok.mp h
  rw [get?_values_invalidate]
  have filed := get?_values_file s v other
  rw [if_neg (Ne.symm ne)] at filed
  have dependents : (((s.file v).rebuild).invalidate v.id).dependents =
      ((s.file v).rebuild).dependents := rfl
  have values : ((s.file v).rebuild).values = (s.file v).values := rfl
  rw [dependents, values, filed]

/-- A derived variable holds nothing once it is registered. -/
theorem get?_values_register_self (h : s.register v = .ok s') (derived : s'.isDerived v.id = true) :
    s'.values.get? v.id = none := by
  obtain ⟨_, rfl⟩ := register_eq_ok.mp h
  have hdef := get?_definitions_file s v v.id
  rw [if_pos rfl] at hdef
  have derived' : v.isDerived = true := by
    simpa [isDerived, invalidate, rebuild, hdef] using derived
  have filed := get?_values_file s v v.id
  rw [if_pos rfl, Variable.initial?, if_pos derived'] at filed
  have values : ((s.file v).rebuild).values = (s.file v).values := rfl
  rw [get?_values_invalidate, values, filed]
  split <;> rfl

/-- A registration files the variable under its id, in place of one that was there. -/
theorem get?_definitions_register (h : s.register v = .ok s') (id : String) :
    s'.definitions.get? id = if v.id = id then some v else s.definitions.get? id := by
  obtain ⟨_, rfl⟩ := register_eq_ok.mp h
  exact get?_definitions_file s v id

/-- Under the same name every reference of another formula stays. -/
theorem RefersTo.register {a b : String} {previous : Variable} (href : s.RefersTo a b)
    (h : s.register v = .ok s') (hprevious : s.definitions.get? v.id = some previous)
    (samename : v.name = previous.name) (ne : a ≠ v.id) : s'.RefersTo a b := by
  obtain ⟨w, formula, hw, hformula, name, hname, hb⟩ := href
  have kept := get?_definitions_register h a
  rw [if_neg (Ne.symm ne)] at kept
  refine ⟨w, formula, kept.trans hw, hformula, name, hname, ?_⟩
  obtain ⟨free, rfl⟩ := register_eq_ok.mp h
  refine (get?_names_file s v name).trans ?_
  by_cases hn : v.name = name
  · subst hn
    rw [if_pos rfl, free b hb]
  · rw [if_neg hn, if_neg, hb]
    simp only [hprevious, Option.any_some, decide_eq_true_eq]
    intro eq
    exact hn (samename.trans eq)

end Register

/-- **Registering an id again drops everything that depended on it exactly if
the id keeps its name, or all that held a value depends on it under the new
name as well.** -/
theorem Reaches.register_dropsDependents_iff {allowed : Sheet → Operation → Prop} {e : Evaluator}
    {s s' : Sheet} {v previous : Variable} (hreach : Reaches allowed (ofEvaluator e) s)
    (hprevious : s.definitions.get? v.id = some previous) (h : s.register v = .ok s') :
    DropsDependents s s' v.id ↔ (v.name = previous.name ∨
      ∀ other, other ≠ v.id → s.isDerived other = true → Graph.Path s.dependents v.id other →
        (s.values.get? other).isSome = true → Graph.Path s'.dependents v.id other) := by
  have hs := hreach.consistent
  have hs' := hs.register h
  have sameDerived : ∀ {other}, other ≠ v.id → s'.isDerived other = s.isDerived other := by
    intro other ne
    rw [isDerived, get?_definitions_register h, if_neg (Ne.symm ne)]
    rfl
  constructor
  · intro drops
    right
    intro other ne derived path held
    have dropped := drops other ((sameDerived ne).trans derived) path
    rw [get?_values_register h ne] at dropped
    split at dropped
    · rename_i reached
      exact (Graph.mem_reached_iff _).mp reached
    · rw [dropped] at held
      cases held
  · intro kept other derived path
    by_cases ne : other = v.id
    · subst ne
      exact get?_values_register_self h derived
    · rw [get?_values_register h ne]
      split
      · rfl
      · rename_i off
        have cut : ¬ Graph.Path s'.dependents v.id other :=
          fun path => off ((Graph.mem_reached_iff _).mpr path)
        rcases kept with samename | kept
        · refine absurd (path.of_edges ?_ ne) cut
          intro c d edge hd
          have href := hs.mem_next_dependents.mp edge
          exact hs'.mem_next_dependents.mpr (href.register h hprevious samename hd)
        · cases held : s.values.get? other with
          | none => rfl
          | some w =>
              have path' := kept other ne ((sameDerived ne).symm.trans derived) path
                (by rw [held]; rfl)
              exact absurd path' cut

/-- The flag with another value to begin with. -/
def loweredFlag : Variable := { flag with default := some (.bool false) }

/-- The flag under another name. -/
def renamedFlag : Variable := { flag with name := "signal" }

theorem flagSheet_flag : flagSheet.definitions.get? "flag" = some flag := by rfl

theorem register_loweredFlag : flagSheet.register loweredFlag =
    .ok (((flagSheet.file loweredFlag).rebuild).invalidate "flag") := by
  refine register_eq_ok.mpr ⟨?_, rfl⟩
  intro id hid
  have own : flagSheet.names.get? "flag" = some "flag" := by decide +kernel
  exact Option.some.inj (hid.symm.trans own)

/-- With the flag lowered its negation is dropped. -/
theorem dropsDependents_loweredFlag :
    DropsDependents flagSheet (((flagSheet.file loweredFlag).rebuild).invalidate "flag")
      "flag" := by
  have same : flagSheet.definitions.get? loweredFlag.id = some flag := flagSheet_flag
  have drops := Reaches.register_dropsDependents_iff flagSheet_reached same register_loweredFlag
  exact drops.mpr (.inl rfl)

/-- With the flag renamed its negation is kept, and is answered though it can
no longer be computed. -/
theorem renamedFlag_leaves_negation : ∃ s', flagSheet.register renamedFlag = .ok s' ∧
    ¬ DropsDependents flagSheet s' "flag" ∧ (s'.read "opposite").1.isOk = true ∧
    (s'.forget.read "opposite").1.isOk = false := by
  refine ⟨((flagSheet.file renamedFlag).rebuild).invalidate "flag",
    register_eq_ok.mpr ⟨?_, rfl⟩, ?_, by decide +kernel, by decide +kernel⟩
  · intro id hid
    have free : flagSheet.names.get? "signal" = none := by decide +kernel
    have none := free.symm.trans hid
    cases none
  · intro drops
    have edge : Graph.Edge flagSheet.dependents "flag" "opposite" := by
      unfold Graph.Edge
      decide +kernel
    have dropped := drops "opposite" (by decide +kernel) (.single edge)
    have kept : ((((flagSheet.file renamedFlag).rebuild).invalidate "flag").values.get?
        "opposite").isSome = true := by decide +kernel
    rw [dropped] at kept
    cases kept

end Sheet

end FormulaSheet
