import FormulaSheet.Proofs.Reach

/-!
# Cycles in a graph

`Graph.cycleFrom?` walks depth first and finds a cycle exactly where one can
be reached.  The walk that finds none is the proof: it has followed every
edge, so every way onward comes to an end.

* `Graph.ReachesCycle` — a cycle can be reached from an id;
* `Graph.Grounded` — every way from an id comes to an end, in the form that
  inductions along the edges use;
* `Graph.cycleFrom?_isSome_iff`, `Graph.grounded_iff` — the two are opposites,
  and the search tells which.
-/

namespace FormulaSheet.Graph

variable {g : Graph}

/-- A cycle can be reached from `a`: along any number of edges there is an id
that a path leads back to. -/
def ReachesCycle (g : Graph) (a : String) : Prop :=
  ∃ b, Relation.ReflTransGen g.Edge a b ∧ g.Path b b

/-- Every way along edges from `a` comes to an end. -/
def Grounded (g : Graph) (a : String) : Prop := Acc (Function.swap g.Edge) a

namespace Grounded

/-- The ends of edges are grounded where their beginnings are. -/
theorem of_edge {a b : String} (h : g.Grounded a) (edge : g.Edge a b) : g.Grounded b :=
  h.inv edge

theorem of_reaches {a b : String} (h : g.Grounded a)
    (reaches : Relation.ReflTransGen g.Edge a b) : g.Grounded b := by
  induction reaches with
  | refl => exact h
  | tail _ edge ih => exact ih.of_edge edge

/-- What is grounded stays grounded in another graph as long as no edge is new
on the ways from it, which keep to the ids allowed. -/
theorem frame {g' : Graph} (allowed : String → Prop)
    (hedge : ∀ {a b}, allowed a → g'.Edge a b → g.Edge a b ∧ allowed b) {a : String}
    (h : g.Grounded a) (ha : allowed a) : g'.Grounded a := by
  induction h with
  | intro a _ ih =>
      refine ⟨a, fun b edge => ?_⟩
      obtain ⟨before, hb⟩ := hedge ha edge
      exact ih b before hb

/-- What is grounded is on no cycle. -/
theorem not_path_self {a : String} (h : g.Grounded a) : ¬ g.Path a a := by
  induction h with
  | intro a _ ih =>
      intro path
      obtain ⟨b, edge, back⟩ := Relation.TransGen.head'_iff.mp path
      exact ih b edge (Relation.TransGen.tail' back edge)

theorem not_reachesCycle {a : String} (h : g.Grounded a) : ¬ g.ReachesCycle a := by
  rintro ⟨b, reaches, cycle⟩
  exact (h.of_reaches reaches).not_path_self cycle

end Grounded

theorem mem_keys_of_get? {a : String} {ids : List String} (h : Table.get? g a = some ids) :
    a ∈ Table.keys g :=
  List.mem_map_of_mem (f := Prod.fst) ((Table.mem_entries_iff g a ids).mpr h)

/-- Edges begin at ids that have an entry. -/
theorem mem_keys_of_edge {a b : String} (edge : g.Edge a b) : a ∈ Table.keys g := by
  cases hids : Table.get? g a with
  | none => simp [Edge, next, hids] at edge
  | some ids => exact mem_keys_of_get? hids

/-- Ids that have an entry and are on no way yet are left to be entered. -/
theorem length_lt_size {path : List String} {id : String} (nodup : path.Nodup)
    (known : path ⊆ Table.keys g) (off : id ∉ path) (hid : id ∈ Table.keys g) :
    path.length < Table.size g := by
  have fits := (List.nodup_cons.mpr ⟨off, nodup⟩).length_le_of_subset
    (List.cons_subset.mpr ⟨hid, known⟩)
  have size : (Table.keys g).length = Table.size g := List.length_map ..
  rwa [List.length_cons, size] at fits

section Walk

variable {room : Nat} {path : List String} {id : String}

/-- A walk that comes back to an id on its way stops there. -/
theorem walk_of_mem (h : id ∈ path) : g.walk room path id = some (id :: path).reverse := by
  unfold walk
  rw [if_pos (by simpa using h)]

/-- A walk without room does not go on. -/
theorem walk_zero (h : id ∉ path) : g.walk 0 path id = none := by
  unfold walk
  rw [if_neg (by simpa using h)]

/-- A walk goes on along the edges of a new id. -/
theorem walk_succ (h : id ∉ path) :
    g.walk (room + 1) path id = (g.next id).findSome? (g.walk room (id :: path)) := by
  rw [walk.eq_def]
  dsimp only
  rw [if_neg (by simpa using h), next]
  cases Table.get? g id <;> rfl

theorem walk_of_get? {ids : List String} (h : id ∉ path) (entry : Table.get? g id = some ids) :
    g.walk (room + 1) path id = ids.findSome? (g.walk room (id :: path)) := by
  rw [walk_succ h, next, entry, Option.getD_some]

/-- A walk ends at a new id without an entry. -/
theorem walk_of_get?_eq_none (h : id ∉ path) (entry : Table.get? g id = none) :
    g.walk room path id = none := by
  cases room with
  | zero => exact walk_zero h
  | succ room => rw [walk_succ h, next, entry, Option.getD_none, List.findSome?_nil]

/-- A walk that stops has met an id on its way before, or a cycle. -/
theorem exists_cycle_of_walk {way : List String} (h : g.walk room path id = some way) :
    ∃ a, Relation.ReflTransGen g.Edge id a ∧ (a ∈ path ∨ g.Path a a) := by
  induction room generalizing path id with
  | zero =>
      by_cases on : id ∈ path
      · exact ⟨id, .refl, .inl on⟩
      · rw [walk_zero on] at h
        cases h
  | succ room ih =>
      by_cases on : id ∈ path
      · exact ⟨id, .refl, .inl on⟩
      · rw [walk_succ on] at h
        obtain ⟨b, edge, found⟩ := List.exists_of_findSome?_eq_some h
        obtain ⟨a, reaches, met⟩ := ih found
        refine ⟨a, .head edge reaches, ?_⟩
        rcases met with met | cycle
        · rcases List.mem_cons.mp met with rfl | met
          · -- back at this id, which closes a cycle
            exact .inr (Relation.TransGen.head' edge reaches)
          · exact .inl met
        · exact .inr cycle

/-- With room for every id that has edges, a walk that finds nothing has
followed every way to its end. -/
theorem grounded_of_walk (nodup : path.Nodup) (known : path ⊆ Table.keys g)
    (enough : Table.size g ≤ path.length + room) (h : g.walk room path id = none) :
    g.Grounded id := by
  induction room generalizing path id with
  | zero =>
      have off : id ∉ path := by
        intro on
        rw [walk_of_mem on] at h
        cases h
      refine ⟨id, fun b edge => ?_⟩
      -- there is no room only when every id with edges is on the way
      have fits := length_lt_size nodup known off (mem_keys_of_edge edge)
      omega
  | succ room ih =>
      have off : id ∉ path := by
        intro on
        rw [walk_of_mem on] at h
        cases h
      rw [walk_succ off] at h
      refine ⟨id, fun b edge => ?_⟩
      apply ih (List.nodup_cons.mpr ⟨off, nodup⟩)
      · exact List.cons_subset.mpr ⟨mem_keys_of_edge edge, known⟩
      · rw [List.length_cons]
        omega
      · exact List.findSome?_eq_none_iff.mp h b edge

end Walk

/-- The search finds nothing only where every way comes to an end. -/
theorem grounded_of_cycleFrom? {id : String} (h : g.cycleFrom? id = none) : g.Grounded id :=
  grounded_of_walk List.nodup_nil (List.nil_subset _) (by simp) h

/-- The search finds a cycle where one can be reached, and only there. -/
theorem cycleFrom?_isSome_iff {id : String} :
    (g.cycleFrom? id).isSome = true ↔ g.ReachesCycle id := by
  constructor
  · intro h
    obtain ⟨way, found⟩ := Option.isSome_iff_exists.mp h
    obtain ⟨a, reaches, met⟩ := exists_cycle_of_walk found
    rcases met with met | cycle
    · cases met
    · exact ⟨a, reaches, cycle⟩
  · intro h
    cases found : g.cycleFrom? id with
    | none => exact absurd h (grounded_of_cycleFrom? found).not_reachesCycle
    | some way => rfl

/-- Every way comes to an end exactly where no cycle can be reached. -/
theorem grounded_iff {id : String} : g.Grounded id ↔ ¬ g.ReachesCycle id := by
  constructor
  · exact Grounded.not_reachesCycle
  · intro h
    apply grounded_of_cycleFrom?
    rw [← Option.not_isSome_iff_eq_none, cycleFrom?_isSome_iff]
    exact h

/-- A cycle that can be reached can be reached from an id that has edges. -/
theorem ReachesCycle.exists_mem_keys {id : String} (h : g.ReachesCycle id) :
    ∃ a ∈ Table.keys g, g.ReachesCycle a := by
  obtain ⟨a, _, cycle⟩ := h
  obtain ⟨b, edge, _⟩ := Relation.TransGen.head'_iff.mp cycle
  exact ⟨a, mem_keys_of_edge edge, a, .refl, cycle⟩

end FormulaSheet.Graph
