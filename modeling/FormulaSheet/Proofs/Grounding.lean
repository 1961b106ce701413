import FormulaSheet.Proofs.Cycle
import FormulaSheet.Proofs.Redefinition

/-!
# What holds a value reaches no cycle

A value is held only for a variable from which every way along references
comes to an end.  Reading never adds one for a variable that reaches a cycle:
its value is held after all its references were read, and these were held or
read before.  Redefining a variable makes a cycle only through the variable
itself, and drops everything that now depends on it.

Restoring a snapshot does put values in place on a cycle, so
`Sheet.Unrestored` leaves it out; every other operation is allowed, renaming
and drawing included.

* `Sheet.HoldsGrounded` — the invariant;
* `Sheet.readFrom_grounded` — reading keeps it, and what it answers is
  grounded;
* `Sheet.Reaches.holdsGrounded` — it holds of every sheet that is reached.
-/

namespace FormulaSheet.Sheet

variable {s s' : Sheet}

namespace Consistent

/-- The edges of the graph of dependencies are the references. -/
theorem edge_dependencies (hs : s.Consistent) : Graph.Edge s.dependencies = s.RefersTo := by
  funext a b
  exact propext hs.mem_next_dependencies

/-- A source is grounded, as it refers to nothing. -/
theorem grounded_of_source (hs : s.Consistent) {id : String} (source : s.isDerived id = false) :
    s.dependencies.Grounded id := by
  refine ⟨id, fun other edge => ?_⟩
  have derived := (hs.mem_next_dependencies.mp edge).isDerived
  rw [source] at derived
  cases derived

/-- A variable is grounded if everything is that its formula refers to. -/
theorem grounded_of_mentions (hs : s.Consistent) {id formula : String} {v : Variable}
    (hv : s.definitions.get? id = some v) (hformula : v.formula = some formula)
    (h : ∀ name ∈ (bodyOf formula).mentions, ∀ other, s.names.get? name = some other →
      s.dependencies.Grounded other) : s.dependencies.Grounded id := by
  refine ⟨id, fun other edge => ?_⟩
  obtain ⟨name, hname, hother⟩ :=
    (hs.mem_next_dependencies.mp edge).exists_mention hv hformula
  exact h name hname other hother

end Consistent

/-- What a registration reaches is new or dropped, so on the ways from the
rest no reference is new. -/
theorem Untouched.refersTo_of_register {v : Variable} (h : s.register v = .ok s')
    (hs' : s'.Consistent) {a b : String} (ha : s'.Untouched v.id a) (href : s'.RefersTo a b) :
    s.RefersTo a b ∧ s'.Untouched v.id b := by
  have hb := ha.of_refersTo hs' href
  obtain ⟨w, formula, hw, hformula, name, hname, hother⟩ := href
  rw [get?_definitions_register h, if_neg (Ne.symm ha.1)] at hw
  refine ⟨⟨w, formula, hw, hformula, name, hname, ?_⟩, hb⟩
  obtain ⟨_, rfl⟩ := register_eq_ok.mp h
  have filed := get?_names_file s v name
  rw [show (s.file v).names.get? name = some b from hother] at filed
  split at filed
  · exact absurd (Option.some.inj filed) hb.1
  · split at filed
    · cases filed
    · exact filed.symm

/-- Removing a variable makes no reference. -/
theorem RefersTo.of_unregister {id a b : String} (href : (s.unregister id).2.RefersTo a b) :
    s.RefersTo a b := by
  cases hv : s.definitions.get? id with
  | none =>
      rw [Sheet.unregister, hv] at href
      exact href
  | some v =>
      obtain ⟨w, formula, hw, hformula, name, hname, hb⟩ := href
      simp only [Sheet.unregister, hv, rebuild, Sheet.invalidate, Table.get?_erase] at hw hb
      split at hw
      · cases hw
      · split at hb
        · cases hb
        · exact ⟨w, formula, hw, hformula, name, hname, hb⟩

/-- What is held after a removal was held before. -/
theorem get?_values_of_unregister {id other : String} {w : Value}
    (hw : (s.unregister id).2.values.get? other = some w) : s.values.get? other = some w := by
  cases hv : s.definitions.get? id with
  | none =>
      rw [Sheet.unregister, hv] at hw
      exact hw
  | some v =>
      rw [Sheet.unregister, hv] at hw
      obtain ⟨_, hw⟩ := get?_values_invalidate_eq_some hw
      rw [Table.get?_erase] at hw
      split at hw
      · cases hw
      · exact hw

/-- Values are held only where every way along references comes to an end. -/
def HoldsGrounded (s : Sheet) (values : Table Value) : Prop :=
  ∀ id w, values.get? id = some w → s.dependencies.Grounded id

/-- What a reader preserves reading the references of a formula preserves, and
if none failed then what holds of every id that is read holds of each. -/
theorem fill_reads {P : Held → Prop} {G : String → Prop} {read : Reader}
    (hread : ∀ id h, P h → P (read id h).2 ∧ ∀ w, (read id h).1 = .ok w → G id)
    (o : Outline) {g : Gathering} (hg : P g.held) :
    P (o.fill (s.lookUp read) g).2.held ∧
      ((o.fill (s.lookUp read) g).2.failure = none →
        ∀ name ∈ o.mentions, ∀ other, s.names.get? name = some other → G other) := by
  induction o generalizing g with
  | nil =>
      refine ⟨hg, fun _ name hname => ?_⟩
      cases hname
  | cons p ps ih =>
      cases p with
      | reference w =>
          have step : P (s.lookUp read (String.ofList w) g).2.held ∧
              ((s.lookUp read (String.ofList w) g).2.failure = none →
                ∀ other, s.names.get? (String.ofList w) = some other → G other) := by
            cases hname : s.names.get? (String.ofList w) with
            | none =>
                rw [lookUp_of_unknown hname]
                refine ⟨hg, fun _ other eq => ?_⟩
                cases eq
            | some id =>
                cases hfailure : g.failure with
                | some e =>
                    rw [lookUp_of_failed hfailure]
                    refine ⟨hg, fun ok => ?_⟩
                    rw [hfailure] at ok
                    cases ok
                | none =>
                    obtain ⟨kept, answered⟩ := hread id g.held hg
                    rcases hresult : read id g.held with ⟨result, held⟩
                    rw [hresult] at kept answered
                    cases result with
                    | error e =>
                        rw [lookUp_of_error hname hfailure hresult]
                        refine ⟨kept, fun ok => ?_⟩
                        cases ok
                    | ok value =>
                        rw [lookUp_of_ok hname hfailure hresult]
                        refine ⟨kept, fun _ other eq => ?_⟩
                        cases eq
                        exact answered value rfl
          obtain ⟨kept, rest⟩ := ih step.1
          refine ⟨kept, fun ok name hname => ?_⟩
          rcases List.mem_cons.mp hname with rfl | hname
          · exact step.2 (fill_failure ps ok)
          · exact rest ok name hname
      | callee w => exact ih hg
      | plain i => exact ih hg

/-- Settling a formula holds a value for its variable only if nothing failed
before. -/
theorem holdsGrounded_settle {v : Variable} {id : String} (text : List Char) {g : Gathering}
    (hg : s.HoldsGrounded g.held.values)
    (grounded : g.failure = none → s.dependencies.Grounded id) :
    s.HoldsGrounded (s.settle v id text g).2.values ∧
      ∀ w, (s.settle v id text g).1 = .ok w → s.dependencies.Grounded id := by
  unfold settle
  dsimp only
  split
  · exact ⟨hg, by rintro w ⟨⟩⟩
  · exact ⟨hg, by rintro w ⟨⟩⟩
  · rename_i hfailure _
    refine ⟨?_, fun _ _ => grounded hfailure⟩
    intro other w hw
    dsimp only at hw
    rw [Table.get?_insert] at hw
    split at hw
    · rename_i eq
      exact eq ▸ grounded hfailure
    · exact hg other w hw

/-- Reading holds values only for what is grounded, and what it answers is
grounded. -/
theorem readFrom_grounded (hs : s.Consistent) (room : Nat) (stack : List String) (id : String)
    (h : Held) (hh : s.HoldsGrounded h.values) :
    s.HoldsGrounded (s.readFrom room stack id h).2.values ∧
      ∀ w, (s.readFrom room stack id h).1 = .ok w → s.dependencies.Grounded id := by
  induction room generalizing stack id h with
  | zero => exact ⟨hh, by rintro w ⟨⟩⟩
  | succ room ih =>
      apply readFrom_cases (P := fun r => s.HoldsGrounded r.2.values ∧
        ∀ w, r.1 = .ok w → s.dependencies.Grounded id)
      case unknown => exact fun _ => ⟨hh, by rintro w ⟨⟩⟩
      case held => exact fun _ hw => ⟨hh, fun _ _ => hh id _ hw⟩
      case source =>
        intro v hv hformula _
        exact ⟨hh, fun _ _ => hs.grounded_of_source (isDerived_of_source hv hformula)⟩
      case on => exact fun _ _ _ _ => ⟨hh, by rintro w ⟨⟩⟩
      case off =>
        intro v formula hv hformula _ _
        obtain ⟨kept, read⟩ := fill_reads (s := s) (P := fun h => s.HoldsGrounded h.values)
          (ih (id :: stack)) (bodyOf formula) (g := ⟨h, none⟩) hh
        exact holdsGrounded_settle _ kept fun ok => hs.grounded_of_mentions hv hformula (read ok)

namespace HoldsGrounded

/-- What is held is grounded in a sheet with the same dependencies that holds
no more. -/
theorem of_values (hg : s.HoldsGrounded s.values) (same : s'.dependencies = s.dependencies)
    (hvalues : ∀ {id w}, s'.values.get? id = some w → s.values.get? id = some w) :
    s'.HoldsGrounded s'.values := by
  intro id w hw
  rw [same]
  exact hg id w (hvalues hw)

/-- A registration keeps the values grounded. -/
theorem register {v : Variable} (hs' : s'.Consistent) (hs : s.Consistent)
    (hg : s.HoldsGrounded s.values) (h : s.register v = .ok s') : s'.HoldsGrounded s'.values := by
  intro other w hw
  by_cases ne : other = v.id
  · subst ne
    apply hs'.grounded_of_source
    cases derived : s'.isDerived v.id with
    | false => rfl
    | true =>
        rw [get?_values_register_self h derived] at hw
        cases hw
  · rw [get?_values_register h ne] at hw
    split at hw
    · cases hw
    · rename_i off
      refine (hg other w hw).frame (s'.Untouched v.id) ?_
        ⟨ne, fun path => off ((Graph.mem_reached_iff _).mpr path)⟩
      intro a b ha edge
      rw [hs'.edge_dependencies] at edge
      rw [hs.edge_dependencies]
      exact ha.refersTo_of_register h hs' edge

/-- So does a removal. -/
theorem unregister (hs : s.Consistent) (hg : s.HoldsGrounded s.values) (id : String) :
    (s.unregister id).2.HoldsGrounded (s.unregister id).2.values := by
  intro other w hw
  refine (hg other w (get?_values_of_unregister hw)).frame (fun _ => True) ?_ trivial
  intro a b _ edge
  rw [(hs.unregister id).edge_dependencies] at edge
  rw [hs.edge_dependencies]
  exact ⟨edge.of_unregister, trivial⟩

/-- So does setting a value. -/
theorem set {id : String} {value : Value} (hs : s.Consistent) (hg : s.HoldsGrounded s.values)
    (h : s.set id value = .ok s') : s'.HoldsGrounded s'.values := by
  obtain ⟨v, hv, source, _, _, rfl⟩ := set_eq_ok.mp h
  intro other w hw
  change s.dependencies.Grounded other
  obtain ⟨_, hw⟩ := get?_values_invalidate_eq_some hw
  rw [Table.get?_insert] at hw
  split at hw
  · rename_i eq
    subst eq
    exact hs.grounded_of_source ((isDerived_eq hv).trans source)
  · exact hg other w hw

/-- So does a read. -/
theorem read (hs : s.Consistent) (hg : s.HoldsGrounded s.values) (id : String) :
    (s.read id).2.HoldsGrounded (s.read id).2.values :=
  (readFrom_grounded hs (s.size + 1) [] id s.held hg).1

/-- So does a change of the evaluator. -/
theorem withEvaluator (hg : s.HoldsGrounded s.values) (e : Evaluator) :
    (s.withEvaluator e).HoldsGrounded (s.withEvaluator e).values := by
  refine hg.of_values rfl ?_
  intro id w hw
  simp only [Sheet.withEvaluator, clearDerived, Table.get?_filter] at hw
  split at hw
  · exact hw
  · cases hw

end HoldsGrounded

/-- Every operation but to restore a snapshot. -/
def Unrestored (_ : Sheet) : Operation → Prop
  | .restore _ => False
  | _ => True

/-- **Every sheet that operations lead to from an empty one, none of which
restores a snapshot, holds values only for what reaches no cycle.** -/
theorem Reaches.holdsGrounded {e : Evaluator} (h : Reaches Unrestored (ofEvaluator e) s) :
    s.HoldsGrounded s.values := by
  induction h with
  | start =>
      intro id w hw
      cases hw
  | @step s op hreach hop hg =>
      have hs := hreach.consistent
      have both : (s.apply op).Consistent ∧ (s.apply op).HoldsGrounded (s.apply op).values := by
        apply apply_preserves (P := fun s => s.Consistent ∧ s.HoldsGrounded s.values) ⟨hs, hg⟩
        · exact fun h => ⟨hs.register h, .register (hs.register h) hs hg h⟩
        · exact fun id => ⟨hs.unregister id, .unregister hs hg id⟩
        · exact fun h => ⟨hs.set h, .set hs hg h⟩
        · exact fun t id ht => ⟨ht.1.read id, .read ht.1 ht.2 id⟩
        · exact fun e => ⟨hs.withEvaluator e, hg.withEvaluator e⟩
        · exact fun e => ⟨hs.of_sameTables ⟨rfl, rfl, rfl, rfl⟩ hs.held, hg⟩
        · intro p eq
          subst eq
          exact hop.elim
      exact both.2

end FormulaSheet.Sheet
