import FormulaSheet.Proofs.Registration

/-!
# Dropping what a change reaches

A change is followed along dependents with a list of ids to work off.  Each id
has its dependents dropped, whether they hold a value or not, and put on the
list in turn; an id that comes up again is passed over.  The dependents of an id
come in no particular order.

A round takes an id off the list, and puts on it only the ends of edges that
were not followed before.  So the ids on the list and the edges still to be
followed get one fewer in every round, on graphs with cycles as on others.

* `Sweep.Step`, `Sweep.Rounds` — the rounds of a sweep;
* `Sweep.Rounds.dues` — they come to an end;
* `Sweep.Follows` — what is visited, pending and dropped at any time;
* `Sheet.sweep_invalidate` — in whatever order the ids are taken, what is left
  is what `Sheet.invalidate` leaves;
* `Sheet.Reaches.set_exact` — what setting a value changes.
-/

namespace FormulaSheet

/-- Values that are being dropped: the ids to be worked off, the last first,
those that were, and the values that are left. -/
structure Sweep where
  pending : List String
  visited : List String
  values : Table Value

namespace Sweep

variable {g : Graph} {id : String} {values : Table Value} {w w' w'' : Sweep} {n : Nat}

/-- A sweep begins with the id that has changed. -/
def start (id : String) (values : Table Value) : Sweep := ⟨[id], [], values⟩

/-- One round of a sweep. -/
inductive Step (g : Graph) : Sweep → Sweep → Prop
  | pass {id : String} {pending visited : List String} {values : Table Value} :
      id ∈ visited → Step g ⟨id :: pending, visited, values⟩ ⟨pending, visited, values⟩
  | visit {id : String} {pending visited dependents : List String} {values : Table Value} :
      id ∉ visited → dependents.Perm (g.next id) →
      Step g ⟨id :: pending, visited, values⟩
        ⟨dependents ++ pending, id :: visited, dependents.foldl Table.erase values⟩

/-- A number of rounds, one after another. -/
inductive Rounds (g : Graph) : Nat → Sweep → Sweep → Prop
  | none {w : Sweep} : Rounds g 0 w w
  | more {n : Nat} {w w' w'' : Sweep} : Step g w w' → Rounds g n w' w'' → Rounds g (n + 1) w w''

/-- The ids that are pending, and the edges that were not followed. -/
def dues (g : Graph) (w : Sweep) : Nat :=
  w.pending.length + Graph.unseenEdges w.visited g.entries

/-- A round pays one of the dues. -/
theorem Step.dues (h : Step g w w') : w'.dues g + 1 = w.dues g := by
  cases h with
  | pass _ =>
      simp only [Sweep.dues, List.length_cons]
      omega
  | @visit id pending visited dependents values fresh order =>
      have cost := Graph.unseenEdges_cons g.ascending fresh
      have length : dependents.length = ((g.entries.find? id).getD []).length := order.length_eq
      simp only [Sweep.dues, List.length_append, List.length_cons]
      omega

/-- Every round takes one id off those that are due. -/
theorem Rounds.dues (h : Rounds g n w w') : w'.dues g + n = w.dues g := by
  induction h with
  | none => rfl
  | more step _ ih =>
      have paid := step.dues
      omega

/-- A sweep goes on until nothing is pending, and there it ends. -/
theorem exists_rounds (g : Graph) (w : Sweep) : ∃ n w', Rounds g n w w' ∧ w'.pending = [] := by
  induction due : w.dues g using Nat.strongRecOn generalizing w with
  | ind due ih =>
      have go : ∀ {w'}, Step g w w' → ∃ n w'', Rounds g n w w'' ∧ w''.pending = [] := by
        intro w' step
        have paid := step.dues
        obtain ⟨n, w'', rounds, done⟩ := ih (w'.dues g) (by omega) w' rfl
        exact ⟨n + 1, w'', .more step rounds, done⟩
      obtain ⟨pending, visited, values⟩ := w
      cases pending with
      | nil => exact ⟨0, _, .none, rfl⟩
      | cons id pending =>
          by_cases seen : id ∈ visited
          · exact go (.pass seen)
          · exact go (.visit seen (.refl _))

/-- Erasing ids in turn drops their values and no other. -/
theorem get?_foldl_erase (ids : List String) (values : Table Value) (other : String) :
    (ids.foldl Table.erase values).get? other =
      if other ∈ ids then none else values.get? other := by
  induction ids generalizing values with
  | nil => rfl
  | cons id ids ih =>
      rw [List.foldl_cons, ih, Table.get?_erase]
      by_cases here : other = id <;> by_cases later : other ∈ ids <;> simp [here, later]

/-- What a sweep has come to that began at an id with these values: it is at
ids that the change reaches, its next ids are those that the visited ones have
edges to, and just these were dropped. -/
structure Follows (g : Graph) (id : String) (values : Table Value) (w : Sweep) : Prop where
  reached : ∀ {a}, a ∈ w.pending ∨ a ∈ w.visited → Relation.ReflTransGen g.Edge id a
  origin : id ∈ w.pending ∨ id ∈ w.visited
  closed : ∀ {a b}, a ∈ w.visited → g.Edge a b → b ∈ w.pending ∨ b ∈ w.visited
  dropped : ∀ {a b}, a ∈ w.visited → g.Edge a b → w.values.get? b = none
  kept : ∀ {b}, (∀ a ∈ w.visited, ¬ g.Edge a b) → w.values.get? b = values.get? b

namespace Follows

/-- A sweep begins at the id, with every value still there. -/
theorem start (g : Graph) (id : String) (values : Table Value) :
    Follows g id values (.start id values) where
  reached := by
    rintro a (ha | ha)
    · rw [List.mem_singleton.mp ha]
    · cases ha
  origin := .inl List.mem_cons_self
  closed := nofun
  dropped := nofun
  kept := fun _ => rfl

/-- One round follows what depends on one id. -/
theorem step (h : Follows g id values w) (step : Step g w w') : Follows g id values w' := by
  cases step with
  | @pass other pending visited left seen =>
      -- the id that is passed over is among those visited
      have still : ∀ {a}, a ∈ other :: pending ∨ a ∈ visited → a ∈ pending ∨ a ∈ visited := by
        rintro a (ha | ha)
        · rcases List.mem_cons.mp ha with rfl | ha
          · exact .inr seen
          · exact .inl ha
        · exact .inr ha
      exact {
        reached := fun ha => h.reached (ha.imp_left (List.mem_cons_of_mem _))
        origin := still h.origin
        closed := fun ha edge => still (h.closed ha edge)
        dropped := h.dropped
        kept := h.kept }
  | @visit other pending visited dependents left fresh order =>
      have edge_iff : ∀ {b}, b ∈ dependents ↔ g.Edge other b := order.mem_iff
      have here := h.reached (.inl List.mem_cons_self)
      have still : ∀ {a}, a ∈ other :: pending ∨ a ∈ visited →
          a ∈ dependents ++ pending ∨ a ∈ other :: visited := by
        rintro a (ha | ha)
        · rcases List.mem_cons.mp ha with rfl | ha
          · exact .inr List.mem_cons_self
          · exact .inl (List.mem_append_right _ ha)
        · exact .inr (List.mem_cons_of_mem _ ha)
      refine ⟨?_, still h.origin, ?_, ?_, ?_⟩
      · rintro a (ha | ha)
        · rcases List.mem_append.mp ha with ha | ha
          · exact here.tail (edge_iff.mp ha)
          · exact h.reached (.inl (List.mem_cons_of_mem _ ha))
        · rcases List.mem_cons.mp ha with rfl | ha
          · exact here
          · exact h.reached (.inr ha)
      · intro a b ha edge
        rcases List.mem_cons.mp ha with rfl | ha
        · exact .inl (List.mem_append_left _ (edge_iff.mpr edge))
        · exact still (h.closed ha edge)
      · intro a b ha edge
        dsimp only
        rw [get?_foldl_erase]
        rcases List.mem_cons.mp ha with rfl | ha
        · rw [if_pos (edge_iff.mpr edge)]
        · rw [h.dropped ha edge, ite_self]
      · intro b off
        obtain ⟨offHere, off⟩ := List.forall_mem_cons.mp off
        dsimp only
        rw [get?_foldl_erase, if_neg (mt edge_iff.mp offHere)]
        exact h.kept off

/-- So do several rounds. -/
theorem rounds (h : Follows g id values w) (rounds : Rounds g n w w') :
    Follows g id values w' := by
  induction rounds with
  | none => exact h
  | more step _ ih => exact ih (h.step step)

/-- When nothing is pending, everything at the end of a path was dropped. -/
theorem get?_of_path (h : Follows g id values w) (done : w.pending = []) {other : String}
    (path : g.Path id other) : w.values.get? other = none := by
  have visited : ∀ {a}, a ∈ w.pending ∨ a ∈ w.visited → a ∈ w.visited := by
    rintro a (ha | ha)
    · rw [done] at ha
      cases ha
    · exact ha
  obtain ⟨last, reaches, edge⟩ := Relation.TransGen.tail'_iff.mp path
  have along : last ∈ w.visited := by
    clear edge
    induction reaches with
    | refl => exact visited h.origin
    | tail _ edge ih => exact visited (h.closed ih edge)
  exact h.dropped along edge

/-- Nothing else is ever dropped. -/
theorem get?_of_not_path (h : Follows g id values w) {other : String}
    (off : ¬ g.Path id other) : w.values.get? other = values.get? other :=
  h.kept fun _ ha edge => off (.tail' (h.reached (.inr ha)) edge)

end Follows

/-- A sweep along a graph comes to an end within as many rounds as there are
edges and one more, and leaves these values, whatever order it takes. -/
structure Leaves (g : Graph) (w : Sweep) (values : Table Value) : Prop where
  bounded : ∀ n w', Rounds g n w w' → n ≤ g.edgeCount + 1
  ends : ∃ n w', Rounds g n w w' ∧ w'.pending = []
  values_eq : ∀ n w', Rounds g n w w' → w'.pending = [] → w'.values = values

end Sweep

namespace Sheet

/-- Invalidating leaves what a sweep leaves. -/
theorem sweep_invalidate (s : Sheet) (id : String) :
    Sweep.Leaves s.dependents (.start id s.values) (s.invalidate id).values where
  bounded := by
    intro n w rounds
    have paid := rounds.dues
    have due : (Sweep.start id s.values).dues s.dependents = 1 + s.dependents.edgeCount := by
      rw [Graph.edgeCount_eq]
      rfl
    omega
  ends := Sweep.exists_rounds _ _
  values_eq := by
    intro n w rounds done
    have follows := (Sweep.Follows.start s.dependents id s.values).rounds rounds
    apply Table.ext_get?
    intro other
    rw [get?_values_invalidate]
    split
    · rename_i on
      exact follows.get?_of_path done ((Graph.mem_reached_iff _).mp on)
    · rename_i off
      exact follows.get?_of_not_path (mt (Graph.mem_reached_iff _).mpr off)

/-- `s'` is `s` with a value for an id and without the values of what depends on
it. -/
structure SetOnly (s s' : Sheet) (id : String) (value : Value) : Prop where
  rest : s' = { s with values := s'.values }
  given : s'.values.get? id = some value
  dropped : ∀ other, Graph.Path s.dependents id other → s'.values.get? other = none
  kept : ∀ other, other ≠ id → ¬ Graph.Path s.dependents id other →
    s'.values.get? other = s.values.get? other

/-- **Setting a value drops what depends on it and nothing else.**  Where the
value is refused the sheet stays as it is.  Where it is taken it is held from
then on, everything that a path of dependents leads to is dropped, and nothing
else in the sheet changes; a sweep of the values does this in a bounded number
of rounds, on cycles too. -/
theorem Reaches.set_exact {allowed : Sheet → Operation → Prop} {e : Evaluator} {s : Sheet}
    (h : Reaches allowed (ofEvaluator e) s) (id : String) (value : Value) :
    (∀ s', s.set id value = .ok s' → s.SetOnly s' id value ∧
      Sweep.Leaves s.dependents (.start id (s.values.insert id value)) s'.values) ∧
    ∀ cause, s.set id value = .error cause → s.apply (.set id value) = s := by
  refine ⟨?_, ?_⟩
  · intro s' set
    obtain ⟨v, hv, source, _, _, rfl⟩ := set_eq_ok.mp set
    refine ⟨⟨rfl, ?_, ?_, ?_⟩, sweep_invalidate { s with values := s.values.insert id value } id⟩
    · -- a source depends on nothing, itself included
      have off := h.consistent.not_path_of_source (a := id) ((isDerived_eq hv).trans source)
      rw [get?_values_set set, if_neg (mt (Graph.mem_reached_iff _).mp off), if_pos rfl]
    · intro other path
      rw [get?_values_set set, if_pos ((Graph.mem_reached_iff _).mpr path)]
    · intro other ne off
      rw [get?_values_set set, if_neg (mt (Graph.mem_reached_iff _).mp off), if_neg ne.symm]
  · intro cause refused
    rw [apply, refused]
    rfl

/-- A flag and a title; something that depends on the flag through its negation,
and two gates that depend on each other and on the flag.  The values of these
two were restored, so the negation holds none, and one on a cycle does. -/
def tangledSheet : Sheet :=
  (((((((ofEvaluator plainEvaluator).apply (.register flag)).apply
    (.register { Variable.create "title" "title" .text with default := some (.text "") })).apply
    (.register opposite)).apply
    (.register (gate "again" "!opposite"))).apply
    (.register (gate "tick" "tock && flag"))).apply
    (.register (gate "tock" "tick && flag"))).apply
    (.restore ⟨Table.ofList [("again", .bool true), ("tock", .bool true)]⟩)

/-- The tangled sheet is reached by operations. -/
theorem tangledSheet_reached :
    Reaches (fun _ _ => True) (ofEvaluator plainEvaluator) tangledSheet :=
  .step (.step (.step (.step (.step (.step (.step .start trivial) trivial) trivial) trivial)
    trivial) trivial) trivial

/-- Lowering the flag drops what is behind the negation, and what is on the
cycle; the title is kept.  A gate cannot be set. -/
theorem set_exact_tangledSheet :
    tangledSheet.values.keys = ["again", "flag", "title", "tock"] ∧
    (∃ s', tangledSheet.set "flag" (.bool false) = .ok s' ∧
      tangledSheet.SetOnly s' "flag" (.bool false) ∧ s'.values.keys = ["flag", "title"] ∧
      s'.values.get? "again" = none ∧ s'.values.get? "tock" = none) ∧
    ∃ cause, tangledSheet.set "tick" (.bool true) = .error cause ∧
      tangledSheet.apply (.set "tick" (.bool true)) = tangledSheet := by
  have taken : ((tangledSheet.set "flag" (.bool false)).toOption.map (·.values.keys)) =
      some ["flag", "title"] := by decide +kernel
  have refused : (tangledSheet.set "tick" (.bool true)).toOption.isNone = true := by
    decide +kernel
  obtain ⟨setting, _⟩ := Reaches.set_exact tangledSheet_reached "flag" (.bool false)
  obtain ⟨_, refusing⟩ := Reaches.set_exact tangledSheet_reached "tick" (.bool true)
  have edge : ∀ {a b : String}, b ∈ tangledSheet.dependents.next a →
      Graph.Path tangledSheet.dependents a b := fun h => .single h
  refine ⟨by decide +kernel, ?_, ?_⟩
  · cases set : tangledSheet.set "flag" (.bool false) with
    | error cause => rw [set] at taken; cases taken
    | ok s' =>
        rw [set] at taken
        have only := (setting s' set).1
        refine ⟨s', rfl, only, Option.some.inj taken, only.dropped _ ?_, only.dropped _ ?_⟩
        · exact (edge (b := "opposite") (by decide +kernel)).trans (edge (by decide +kernel))
        · exact edge (by decide +kernel)
  · cases set : tangledSheet.set "tick" (.bool true) with
    | error cause => exact ⟨cause, rfl, refusing cause set⟩
    | ok s' => rw [set] at refused; cases refused

end Sheet

end FormulaSheet
