import Mathlib.Data.List.Chain
import Mathlib.Data.List.Nodup
import FormulaSheet.Proofs.Grounding

/-!
# Cycles that are read and cycles that are found

A cycle among formulas is reported in two ways.  `Sheet.checkCycles` walks the
graph of dependencies; `Sheet.read` comes upon a variable that is already on
the stack of those being evaluated.  A read stops at the values that are held,
skips what comes after a failure and never looks at the graph, and still the
two agree: nothing that reaches a cycle holds a value
(`Sheet.Reaches.holdsGrounded`), and a stack is a way along references.

* `IsRing` — a path that comes back to where it began;
* `Sheet.Descends` — the stack of a read, as a way from where it began;
* `Sheet.readFrom_circular` — a cycle that is reported is a ring of references;
* `Sheet.Reaches.read_circular` — reading and checking agree.
-/

namespace FormulaSheet

/-- A path along `R` that comes back to where it began, and is nowhere else
twice. -/
structure IsRing (R : String → String → Prop) (path : List String) : Prop where
  closed : ∃ a between, path = a :: (between ++ [a]) ∧ (a :: between).Nodup
  linked : path.IsChain R

namespace IsRing

variable {R R' : String → String → Prop} {path : List String}

/-- A ring leads from one of its places to all of them. -/
theorem exists_transGen (h : IsRing R path) :
    ∃ a ∈ path, ∀ b ∈ path, Relation.TransGen R a b := by
  obtain ⟨a, between, rfl, _⟩ := h.closed
  have linked := h.linked.imp fun _ _ => Relation.TransGen.single
  have leads := (List.pairwise_cons.mp (List.isChain_iff_pairwise.mp linked)).1
  refine ⟨a, List.mem_cons_self, fun b hb => ?_⟩
  rcases List.mem_cons.mp hb with rfl | hb
  · exact leads b (List.mem_append_right _ List.mem_cons_self)
  · exact leads b hb

/-- Under other names a ring stays one, as long as different places have
different names. -/
theorem map (h : IsRing R path) {f : String → String}
    (hf : ∀ a ∈ path, ∀ b ∈ path, f a = f b → a = b) (hR : ∀ {a b}, R a b → R' (f a) (f b)) :
    IsRing R' (path.map f) := by
  obtain ⟨a, between, rfl, nodup⟩ := h.closed
  refine ⟨⟨f a, between.map f, by simp, ?_⟩, ?_⟩
  · rw [← List.map_cons]
    refine nodup.map_on fun b hb c hc eq => hf b ?_ c ?_ eq
    · rw [← List.cons_append]
      exact List.mem_append_left _ hb
    · rw [← List.cons_append]
      exact List.mem_append_left _ hc
  · rw [List.isChain_map]
    exact h.linked.imp fun _ _ => hR

end IsRing

namespace Sheet

variable {s : Sheet} {origin id : String} {stack : List String}

/-- How a read that began at `origin` came to `id`: along the stack, last id
first, each being referred to by the one below it. -/
structure Descends (s : Sheet) (origin id : String) (stack : List String) : Prop where
  nodup : stack.Nodup
  linked : (id :: stack).IsChain (Function.swap s.RefersTo)
  reached : ∀ other ∈ id :: stack, Relation.ReflTransGen s.RefersTo origin other

namespace Descends

/-- A read begins with nothing on the stack. -/
theorem start (s : Sheet) (id : String) : Descends s id id [] where
  nodup := List.nodup_nil
  linked := List.isChain_singleton id
  reached := by
    intro other hother
    rw [List.mem_singleton.mp hother]

theorem push (h : Descends s origin id stack) (off : id ∉ stack) {other : String}
    (href : s.RefersTo id other) : Descends s origin other (id :: stack) where
  nodup := List.nodup_cons.mpr ⟨off, h.nodup⟩
  linked := List.isChain_cons_cons.mpr ⟨href, h.linked⟩
  reached := by
    intro below hbelow
    rcases List.mem_cons.mp hbelow with rfl | hbelow
    · exact (h.reached id List.mem_cons_self).tail href
    · exact h.reached below hbelow

/-- An id that is met on the stack closes a ring, whose names are the path that
is reported. -/
theorem exists_ring (h : Descends s origin id stack) (on : id ∈ stack) :
    ∃ ring, s.cyclePath stack id = ring.map s.nameOf ∧ IsRing s.RefersTo ring ∧
      ∀ other ∈ ring, Relation.ReflTransGen s.RefersTo origin other := by
  obtain ⟨above, below, rfl, off⟩ := List.eq_append_cons_of_mem on
  -- the ring is the part of the stack above the id, with the id at both ends
  have part : (id :: above ++ [id]) <+: id :: (above ++ id :: below) :=
    ⟨below, by simp⟩
  refine ⟨(id :: above ++ [id]).reverse, ?_, ⟨⟨id, above.reverse, by simp, ?_⟩, ?_⟩, ?_⟩
  · rw [cyclePath_of_notMem off]
    simp
  · refine List.nodup_cons.mpr ⟨by simpa using off, ?_⟩
    exact List.nodup_reverse.mpr (List.nodup_append.mp h.nodup).1
  · rw [List.isChain_reverse]
    exact List.IsChain.prefix h.linked part
  · intro other hother
    exact h.reached other (part.subset (List.mem_reverse.mp hother))

end Descends

/-- A failure is the error of something that the formula mentions. -/
theorem exists_read_of_failure {read : Reader} {o : Outline} {g : Gathering} {e : SheetError}
    (hg : g.failure = none) (h : (o.fill (s.lookUp read) g).2.failure = some e) :
    ∃ name ∈ o.mentions, ∃ other held, s.names.get? name = some other ∧
      (read other held).1 = .error e := by
  induction o generalizing g with
  | nil =>
      rw [Outline.fill, hg] at h
      cases h
  | cons p ps ih =>
      cases p with
      | reference w =>
          change (Outline.fill (s.lookUp read) ps
            (s.lookUp read (String.ofList w) g).2).2.failure = some e at h
          have later : (s.lookUp read (String.ofList w) g).2.failure = none →
              ∃ name ∈ Outline.mentions (.reference w :: ps), ∃ other held,
                s.names.get? name = some other ∧ (read other held).1 = .error e := by
            intro none
            obtain ⟨name, hname, found⟩ := ih none h
            exact ⟨name, List.mem_cons_of_mem _ hname, found⟩
          cases hname : s.names.get? (String.ofList w) with
          | none =>
              apply later
              rw [lookUp_of_unknown hname]
              exact hg
          | some other =>
              rcases hresult : read other g.held with ⟨result, held⟩
              cases result with
              | ok value =>
                  apply later
                  rw [lookUp_of_ok hname hg hresult]
              | error e' =>
                  rw [lookUp_of_error hname hg hresult, fill_of_failed ps rfl] at h
                  cases h
                  exact ⟨_, List.mem_cons_self, other, g.held, hname, by rw [hresult]⟩
      | callee w => exact ih hg h
      | plain i => exact ih hg h

/-- Settling a formula reports a cycle only if reading its references did. -/
theorem failure_of_settle_circular {v : Variable} {text : List Char} {g : Gathering}
    {path : List String} (h : (s.settle v id text g).1 = .error (.circularDependency path)) :
    g.failure = some (.circularDependency path) := by
  unfold settle at h
  dsimp only at h
  split at h
  · rename_i hfailure
    cases h
    exact hfailure
  · cases h
  · cases h

/-- The cycle that a read reports is a ring of references that is reached from
where the read began. -/
theorem readFrom_circular {room : Nat} {h : Held} {path : List String}
    (descends : Descends s origin id stack)
    (hread : (s.readFrom room stack id h).1 = .error (.circularDependency path)) :
    ∃ ring, path = ring.map s.nameOf ∧ IsRing s.RefersTo ring ∧
      ∀ other ∈ ring, Relation.ReflTransGen s.RefersTo origin other := by
  induction room generalizing stack id h with
  | zero => cases hread
  | succ room ih =>
      revert hread
      apply readFrom_cases (P := fun r => r.1 = .error (.circularDependency path) →
        ∃ ring, path = ring.map s.nameOf ∧ IsRing s.RefersTo ring ∧
          ∀ other ∈ ring, Relation.ReflTransGen s.RefersTo origin other)
      case unknown | held | source =>
        intros
        rename_i hread
        cases hread
      case on =>
        rintro v formula _ _ _ on ⟨⟩
        exact descends.exists_ring on
      case off =>
        intro v formula hv hformula _ off hread
        obtain ⟨name, hname, other, held, hother, inner⟩ :=
          exists_read_of_failure rfl (failure_of_settle_circular hread)
        exact ih (descends.push off ⟨v, formula, hv, hformula, name, hname, hother⟩) inner

/-- The formula of the variable of one name refers to another name. -/
def Mentions (s : Sheet) (a b : String) : Prop :=
  ∃ v formula, s.findByName? a = some v ∧ v.formula = some formula ∧
    b ∈ (Outline.ofText formula.toList).references

/-- Names along a cycle that is reached from an id: the formula of each refers
to the next, the first is the last, and no other occurs twice. -/
structure CircularPath (s : Sheet) (id : String) (path : List String) : Prop where
  ring : IsRing s.Mentions path
  reached : ∀ name ∈ path, ∃ other, s.names.get? name = some other ∧
    Relation.ReflTransGen (Graph.Edge s.dependencies) id other

namespace Consistent

/-- What is referred to has a name. -/
theorem get?_names_nameOf (hs : s.Consistent) {a b : String} (href : s.RefersTo a b) :
    s.names.get? (s.nameOf b) = some b := by
  obtain ⟨_, _, _, _, name, _, hb⟩ := href
  obtain ⟨w, hw, rfl⟩ := hs.name_iff.mp hb
  rw [nameOf, hw]
  exact hb

/-- The names of a reference: the formula of the one refers to the other. -/
theorem mentions_of_refersTo (hs : s.Consistent) {a b : String} (href : s.RefersTo a b) :
    s.Mentions (s.nameOf a) (s.nameOf b) := by
  obtain ⟨v, formula, hv, hformula, name, hname, hb⟩ := href
  obtain ⟨w, hw, rfl⟩ := hs.name_iff.mp hb
  have own : s.names.get? v.name = some a := hs.name_iff.mpr ⟨v, hv, rfl⟩
  refine ⟨v, formula, ?_, hformula, ?_⟩
  · simp only [nameOf, hv, findByName?, own, Option.bind_some]
  · simp only [nameOf, hw]
    rw [bodyOf, Outline.mentions_formulaBody] at hname
    exact (Outline.mem_references _ _).mpr hname

/-- The names of a ring of references are a circular path. -/
theorem circularPath (hs : s.Consistent) {ring : List String} (hring : IsRing s.RefersTo ring)
    (reached : ∀ other ∈ ring, Relation.ReflTransGen s.RefersTo id other) :
    s.CircularPath id (ring.map s.nameOf) := by
  obtain ⟨a, _, leads⟩ := hring.exists_transGen
  have named : ∀ other ∈ ring, s.names.get? (s.nameOf other) = some other := by
    intro other hother
    obtain ⟨below, _, href⟩ := Relation.TransGen.tail'_iff.mp (leads other hother)
    exact hs.get?_names_nameOf href
  refine ⟨hring.map ?_ hs.mentions_of_refersTo, ?_⟩
  · intro b hb c hc eq
    have same := named b hb
    rw [eq, named c hc] at same
    exact (Option.some.inj same).symm
  · intro name hname
    obtain ⟨other, hother, rfl⟩ := List.mem_map.mp hname
    refine ⟨other, named other hother, ?_⟩
    rw [hs.edge_dependencies]
    exact reached other hother

/-- Where a read reports a cycle, the path is circular and the graph has the
cycle. -/
theorem circularPath_of_read (hs : s.Consistent) {path : List String}
    (h : (s.read id).1 = .error (.circularDependency path)) :
    s.CircularPath id path ∧ s.dependencies.ReachesCycle id := by
  rw [fst_read] at h
  obtain ⟨ring, rfl, hring, reached⟩ := readFrom_circular (.start s id) h
  refine ⟨hs.circularPath hring reached, ?_⟩
  obtain ⟨a, ha, leads⟩ := hring.exists_transGen
  refine ⟨a, ?_, ?_⟩
  · rw [hs.edge_dependencies]
    exact reached a ha
  · rw [Graph.Path, hs.edge_dependencies]
    exact leads a ha

end Consistent

/-- The tables are free of cycles exactly if none can be reached. -/
theorem checkCycles_eq_ok_iff :
    s.checkCycles = .ok () ↔ ∀ id, ¬ s.dependencies.ReachesCycle id := by
  unfold checkCycles
  constructor
  · intro h id cycle
    obtain ⟨a, ha, cycle⟩ := cycle.exists_mem_keys
    have found := Graph.cycleFrom?_isSome_iff.mpr cycle
    split at h
    · cases h
    · rename_i nowhere
      rw [List.findSome?_eq_none_iff.mp nowhere a ha] at found
      cases found
  · intro h
    split
    · rename_i ids found
      obtain ⟨a, _, way⟩ := List.exists_of_findSome?_eq_some found
      exact absurd (Graph.cycleFrom?_isSome_iff.mp (Option.isSome_of_eq_some way)) (h a)
    · rfl

/-- Where a cycle can be reached the check reports one. -/
theorem checkCycles_eq_error (h : s.dependencies.ReachesCycle id) :
    ∃ cycle, s.checkCycles = .error (.circularDependency cycle) := by
  cases hcheck : s.checkCycles with
  | ok _ => exact absurd h (checkCycles_eq_ok_iff.mp hcheck id)
  | error e =>
      unfold checkCycles at hcheck
      split at hcheck
      · cases hcheck
        exact ⟨_, rfl⟩
      · cases hcheck

/-- While no cycle can be reached, reading one variable after another reports
none either. -/
theorem readInto_ne_circular {vs : List Variable} {values : Table Value} {path : List String}
    (hs : s.Consistent) (free : ∀ id, ¬ s.dependencies.ReachesCycle id) :
    (readInto values vs s).1 ≠ .error (.circularDependency path) := by
  induction vs generalizing s values with
  | nil =>
      intro h
      cases h
  | cons v vs ih =>
      intro h
      unfold readInto at h
      have kept := hs.read v.id
      have same : (s.read v.id).2.dependencies = s.dependencies := rfl
      have clear : ∀ path, (s.read v.id).1 ≠ .error (.circularDependency path) :=
        fun path circular => free v.id (hs.circularPath_of_read circular).2
      rcases hresult : s.read v.id with ⟨result, s'⟩
      rw [hresult] at h kept same clear
      cases result with
      | ok value =>
          refine ih kept ?_ h
          rw [same]
          exact free
      | error e =>
          cases h
          exact clear path rfl

/-- **Reading and checking agree on cycles.**  Where a read reports a cycle,
its path is circular and is reached from the id, and the check fails; from
where the graph has a cycle, which the search finds, a read fails; and after a
check that succeeds no read reports a cycle. -/
theorem Reaches.read_circular {e : Evaluator} (h : Reaches Unrestored (ofEvaluator e) s)
    (id : String) :
    (∀ path, (s.read id).1 = .error (.circularDependency path) →
      s.CircularPath id path ∧ ∃ cycle, s.checkCycles = .error (.circularDependency cycle)) ∧
    ((s.dependencies.cycleFrom? id).isSome = true ↔ s.dependencies.ReachesCycle id) ∧
    (s.dependencies.ReachesCycle id → ∃ cause, (s.read id).1 = .error cause) ∧
    (s.checkCycles = .ok () → ∀ path,
      (s.read id).1 ≠ .error (.circularDependency path) ∧
      (s.readByName id).1 ≠ .error (.circularDependency path) ∧
      s.readAll.1 ≠ .error (.circularDependency path)) := by
  have hs := h.consistent
  refine ⟨?_, Graph.cycleFrom?_isSome_iff, ?_, ?_⟩
  · intro path circular
    obtain ⟨hpath, cycle⟩ := hs.circularPath_of_read circular
    exact ⟨hpath, checkCycles_eq_error cycle⟩
  · intro cycle
    cases hresult : (s.read id).1 with
    | error cause => exact ⟨cause, rfl⟩
    | ok w =>
        -- what is answered is grounded
        have answered := (readFrom_grounded hs (s.size + 1) [] id s.held h.holdsGrounded).2
        exact absurd cycle (answered w hresult).not_reachesCycle
  · intro ok path
    have free := checkCycles_eq_ok_iff.mp ok
    have clear : ∀ other, (s.read other).1 ≠ .error (.circularDependency path) :=
      fun other circular => free other (hs.circularPath_of_read circular).2
    refine ⟨clear id, ?_, readInto_ne_circular hs free⟩
    unfold readByName
    split
    · exact clear _
    · intro circular
      cases circular

/-- Two gates on a flag, both of which were read. -/
def openSheet : Sheet :=
  ((((ofEvaluator plainEvaluator).apply (.register flag)).apply
    (.register (gate "opposite" "!flag"))).apply
    (.register (gate "either" "flag || opposite"))).apply (.read "either")

/-- The flag itself is made a gate, on what is computed from it. -/
def loopSheet : Sheet := openSheet.apply (.register (gate "flag" "!opposite"))

theorem openSheet_reached : Reaches Unrestored (ofEvaluator plainEvaluator) openSheet :=
  .step (.step (.step (.step .start trivial) trivial) trivial) trivial

theorem loopSheet_reached : Reaches Unrestored (ofEvaluator plainEvaluator) loopSheet :=
  .step openSheet_reached trivial

/-- The path of a reported cycle. -/
def reportedPath : Except SheetError Value → List String
  | .error (.circularDependency path) => path
  | _ => []

/-- Before the loop is closed all is read and no cycle found.  Afterwards a
read outside of the loop comes upon it and reports it. -/
theorem read_circular_loopSheet :
    ((openSheet.values.get? "either").isSome = true ∧ openSheet.checkCycles = .ok () ∧
      ∀ path, openSheet.readAll.1 ≠ .error (.circularDependency path)) ∧
    ∃ path, (loopSheet.read "either").1 = .error (.circularDependency path) ∧
      path = ["flag", "opposite", "flag"] ∧ loopSheet.CircularPath "either" path ∧
      loopSheet.dependencies.ReachesCycle "either" := by
  have free : openSheet.checkCycles = .ok () := by
    have found : openSheet.dependencies.keys.findSome? openSheet.dependencies.cycleFrom? =
        none := by
      decide +kernel
    rw [checkCycles, found]
  have reported : reportedPath (loopSheet.read "either").1 = ["flag", "opposite", "flag"] := by
    decide +kernel
  obtain ⟨_, _, _, clear⟩ := Reaches.read_circular openSheet_reached "either"
  obtain ⟨circular, search, _, _⟩ := Reaches.read_circular loopSheet_reached "either"
  refine ⟨⟨by decide +kernel, free, fun path => (clear free path).2.2⟩, ?_⟩
  unfold reportedPath at reported
  split at reported
  · rename_i path hread
    exact ⟨path, hread, reported, (circular path hread).1, search.mp (by decide +kernel)⟩
  · cases reported

end Sheet

end FormulaSheet
