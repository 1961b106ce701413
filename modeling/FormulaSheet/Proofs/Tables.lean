import Mathlib.Data.List.Nodup
import FormulaSheet.Proofs.Freshness

/-!
# What the tables say

The names, the dependencies and the dependents of a sheet are kept beside its
definitions and are updated on different occasions: by a registration, new or
in place of another, by a removal, and by nothing else.  Whatever was done to a
sheet, they say what its definitions say and no more.

* `Graph.Listed` — no id has an empty entry or an edge twice;
* `Sheet.Consistent.sameTables` — sheets with the same definitions have the
  same tables;
* `Sheet.Reaches.tables_agree` — what is found in each of the tables.
-/

namespace FormulaSheet

/-- The names that a formula refers to are listed once each. -/
theorem Outline.nodup_references (o : Outline) : o.references.Nodup := by
  rw [Outline.references_eq]
  induction o.mentions using List.reverseRecOn with
  | nil => exact List.nodup_nil
  | append_singleton names m ih =>
      rw [Outline.eraseDups_concat]
      split
      · exact ih
      · rename_i new
        simpa [List.nodup_append] using ⟨ih, fun a ha eq => new (eq ▸ ha)⟩

namespace Graph

/-- Every id that has an entry has edges, and each of them once. -/
def Listed (g : Graph) : Prop :=
  ∀ id ids, Table.get? g id = some ids → ids ≠ [] ∧ ids.Nodup

theorem Listed.addEdge {g : Graph} (hg : g.Listed) (source target : String) :
    (g.addEdge source target).Listed := by
  intro id ids h
  unfold Graph.addEdge at h
  split at h
  · exact hg id ids h
  · rename_i absent
    rw [Table.get?_insert] at h
    split at h
    · cases h
      refine ⟨by simp, ?_⟩
      have before : (g.next source).Nodup := by
        unfold next
        cases hget : Table.get? g source with
        | none => exact List.nodup_nil
        | some ids => exact (hg _ _ hget).2
      rw [← List.concat_eq_append]
      exact before.concat (by simpa using absent)
    · exact hg id ids h

/-- A graph that was turned around has edges wherever it has an entry. -/
theorem listed_inverse (g : Graph) : g.inverse.Listed := by
  have inner : ∀ (source : String) (targets : List String) (h : Graph), h.Listed →
      (targets.foldl (fun h target => addEdge h target source) h).Listed := by
    intro source targets
    induction targets with
    | nil => exact fun h listed => listed
    | cons target targets ih => exact fun h listed => ih _ (listed.addEdge target source)
  have outer : ∀ (es : Entries (List String)) (h : Graph), h.Listed →
      (es.foldl (fun h e => e.2.foldl (fun h target => addEdge h target e.1) h) h).Listed := by
    intro es
    induction es with
    | nil => exact fun h listed => listed
    | cons e es ih => exact fun h listed => ih _ (inner e.1 e.2 h listed)
  refine outer g.entries Table.empty ?_
  intro id ids h
  cases h

end Graph

namespace Sheet

namespace Consistent

variable {s t : Sheet}

/-- No two names belong to one id. -/
theorem name_injective (hs : s.Consistent) {a b id : String} (ha : s.names.get? a = some id)
    (hb : s.names.get? b = some id) : a = b := by
  obtain ⟨v, hv, rfl⟩ := hs.name_iff.mp ha
  obtain ⟨w, hw, rfl⟩ := hs.name_iff.mp hb
  rw [hv] at hw
  cases hw
  rfl

/-- A formula does not refer to an id twice. -/
theorem nodup_dependencies (hs : s.Consistent) {id : String} {ids : List String}
    (h : s.dependencies.get? id = some ids) : ids.Nodup := by
  rw [hs.dependencies, get?_dependencies_rebuild] at h
  obtain ⟨formula, _, rfl⟩ := Option.map_eq_some_iff.mp h
  exact (Outline.nodup_references _).filterMap fun _ _ _ ha hb => hs.name_injective ha hb

/-- The tables are made from the definitions alone. -/
theorem sameTables (hs : s.Consistent) (ht : t.Consistent)
    (same : t.definitions = s.definitions) : SameTables s t := by
  have names : t.names = s.names := by
    apply Table.ext_get?
    intro name
    apply Option.ext
    intro id
    rw [ht.name_iff, hs.name_iff, same]
  have dependencies : t.dependencies = s.dependencies := by
    rw [ht.dependencies, hs.dependencies]
    unfold rebuild
    rw [same, names]
  exact ⟨same, names, dependencies, by rw [ht.dependents, hs.dependents, dependencies]⟩

end Consistent

/-- **The tables agree with the definitions.**  In every sheet that operations
of any kind lead to from an empty one, an id is found under the name of its
variable and nothing else is found by name; what holds a value is a variable;
the dependencies of exactly the derived variables are kept, each once, as their
formulas have them under the names of the moment; and the dependents are these
turned around. -/
theorem Reaches.tables_agree {allowed : Sheet → Operation → Prop} {e : Evaluator} {s : Sheet}
    (h : Reaches allowed (ofEvaluator e) s) :
    (∀ id v, s.find? id = some v → v.id = id ∧ s.names.get? v.name = some id) ∧
    (∀ name id, s.names.get? name = some id → ∃ v, s.find? id = some v ∧ v.name = name) ∧
    (∀ id w, s.values.get? id = some w → (s.find? id).isSome = true) ∧
    (∀ id, s.dependencies.get? id =
      ((s.find? id).bind (·.formula)).map (FormulaSheet.dependenciesOf s.names)) ∧
    (∀ id ids, s.dependencies.get? id = some ids → ids.Nodup) ∧
    (∀ a b, a ∈ s.dependents.next b ↔ b ∈ s.dependencies.next a) ∧
    s.dependents.Listed := by
  have hs := h.consistent
  refine ⟨?_, ?_, ?_, ?_, ?_, ?_, ?_⟩
  · intro id v hv
    exact ⟨hs.id_eq hv, hs.name_iff.mpr ⟨v, hv, rfl⟩⟩
  · intro name id hname
    exact hs.name_iff.mp hname
  · intro id w hw
    exact hs.held hw
  · intro id
    rw [hs.dependencies, get?_dependencies_rebuild]
    rfl
  · intro id ids hids
    exact hs.nodup_dependencies hids
  · intro a b
    rw [hs.mem_next_dependents, hs.mem_next_dependencies]
  · rw [hs.dependents]
    exact Graph.listed_inverse s.dependencies

/-- The flag gets the name of its negation, and that the name of the flag.  A
value is put in the place of the negation, which cannot be set, and one more is
for no variable at all. -/
def swappedSheet : Sheet :=
  ((((flagSheet.apply (.register { flag with name := "lowered" })).apply
    (.register { opposite with name := "flag" })).apply
    (.register { flag with name := "opposite" })).apply
    (.set "opposite" (.bool true))).apply
    (.restore ⟨Table.ofList [("opposite", .null), ("ghost", .null)]⟩)

theorem swappedSheet_reached :
    Reaches (fun _ _ => True) (ofEvaluator plainEvaluator) swappedSheet := by
  have first : Reaches (fun _ _ => True) (ofEvaluator plainEvaluator) flagSheet :=
    .step (.step (.step .start trivial) trivial) trivial
  exact .step (.step (.step (.step (.step first trivial) trivial) trivial) trivial) trivial

/-- The negation is known as the flag and refers to itself; what it referred to
is known by its old name and has no dependents. -/
theorem tables_agree_swappedSheet :
    swappedSheet.names.get? "flag" = some "opposite" ∧
    swappedSheet.names.get? "opposite" = some "flag" ∧
    swappedSheet.values.keys = ["flag", "opposite"] ∧
    (swappedSheet.find? "opposite").isSome = true ∧
    swappedSheet.dependencies.get? "opposite" = some ["opposite"] ∧
    ["opposite"].Nodup ∧ "opposite" ∈ swappedSheet.dependents.next "opposite" := by
  have named : swappedSheet.names.get? "flag" = some "opposite" := by decide +kernel
  have refers : swappedSheet.dependencies.get? "opposite" = some ["opposite"] := by
    decide +kernel
  obtain ⟨_, found, _, _, once, turned, _⟩ := Reaches.tables_agree swappedSheet_reached
  obtain ⟨v, hv, _⟩ := found "flag" "opposite" named
  refine ⟨named, by decide +kernel, by decide +kernel, Option.isSome_of_eq_some hv, refers,
    once _ _ refers, (turned _ _).mpr ?_⟩
  rw [Graph.next, refers]
  decide

end Sheet

end FormulaSheet
