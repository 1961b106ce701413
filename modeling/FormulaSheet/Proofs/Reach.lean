import Mathlib.Logic.Relation
import Mathlib.Tactic.Tauto
import FormulaSheet.Dependency

/-!
# What a graph reaches

`Graph.reached` is computed with a bound on its steps.  The bound is large
enough: every id is expanded at most once, so the edges out of the ids not yet
seen, and the ids pending, pay for every step to come.

* `Graph.mem_reached_iff` — the ids reached from an id are those at the end of
  a path of one or more edges;
* `Graph.mem_next_inverse` — turning a graph around turns every edge around.
-/

namespace FormulaSheet.Graph

/-- There is an edge from `a` to `b`. -/
def Edge (g : Graph) (a b : String) : Prop := b ∈ g.next a

/-- A path of one or more edges leads from `a` to `b`. -/
def Path (g : Graph) : String → String → Prop := Relation.TransGen g.Edge

/-- How many edges lead out of the entries whose key is not among `seen`. -/
def unseenEdges (seen : List String) : Entries (List String) → Nat
  | [] => 0
  | (k, ids) :: es => (if seen.contains k then 0 else ids.length) + unseenEdges seen es

theorem edgeCount_eq (g : Graph) : g.edgeCount = unseenEdges [] g.entries := by
  have fold : ∀ (es : Entries (List String)) (n : Nat),
      (es.map (·.2)).foldl (fun n ids => n + ids.length) n = n + unseenEdges [] es := by
    intro es
    induction es with
    | nil => exact fun n => rfl
    | cons e es ih =>
        intro n
        obtain ⟨k, ids⟩ := e
        rw [List.map_cons, List.foldl_cons, ih]
        simp only [unseenEdges, List.contains_nil, Bool.false_eq_true, if_false]
        omega
  have whole := fold g.entries 0
  rw [Nat.zero_add] at whole
  exact whole

/-- Seeing an id takes its edges off the count. -/
theorem unseenEdges_cons {id : String} {seen : List String} {es : Entries (List String)}
    (asc : es.Ascending) (fresh : id ∉ seen) :
    unseenEdges (id :: seen) es + ((es.find? id).getD []).length = unseenEdges seen es := by
  induction es with
  | nil => rfl
  | cons x es ih =>
      obtain ⟨k, ids⟩ := x
      have tail := ih (List.pairwise_cons.mp asc).2
      by_cases hk : k = id
      · subst hk
        rw [Entries.find?_tail_eq_none asc] at tail
        simp [unseenEdges, Entries.find?, fresh] at tail ⊢
        omega
      · simp only [unseenEdges, Entries.find?, if_neg hk, List.contains_cons]
        have notId : (k == id) = false := by simpa using hk
        rw [notId, Bool.false_or]
        omega

/-- With room for every pending id and every edge not yet seen, spreading
finds all of them and stops where no edge leads further. -/
theorem spread_closed (g : Graph) (room : Nat) (pending seen : List String)
    (enough : pending.length + unseenEdges seen g.entries < room)
    (closed : ∀ a ∈ seen, ∀ b ∈ g.next a, b ∈ seen ∨ b ∈ pending) :
    (∀ a, a ∈ seen ∨ a ∈ pending → a ∈ g.spread room pending seen) ∧
      ∀ a ∈ g.spread room pending seen, ∀ b ∈ g.next a, b ∈ g.spread room pending seen := by
  induction room generalizing pending seen with
  | zero => omega
  | succ room ih =>
      cases pending with
      | nil =>
          have hspread : g.spread (room + 1) [] seen = seen := rfl
          rw [hspread]
          exact ⟨fun a ha => by simpa using ha, fun a ha b hb => by simpa using closed a ha b hb⟩
      | cons id pending =>
          rw [List.length_cons] at enough
          by_cases hid : id ∈ seen
          · have hspread : g.spread (room + 1) (id :: pending) seen =
                g.spread room pending seen := by
              rw [spread, if_pos (by simpa using hid)]
            rw [hspread]
            have rest := ih pending seen (by omega) (fun a ha b hb => by
              rcases closed a ha b hb with h | h
              · exact .inl h
              · rcases List.mem_cons.mp h with rfl | h
                · exact .inl hid
                · exact .inr h)
            refine ⟨fun a ha => rest.1 a ?_, rest.2⟩
            rcases ha with ha | ha
            · exact .inl ha
            · rcases List.mem_cons.mp ha with rfl | ha
              · exact .inl hid
              · exact .inr ha
          · have hspread : g.spread (room + 1) (id :: pending) seen =
                g.spread room (g.next id ++ pending) (id :: seen) := by
              rw [spread, if_neg (by simpa using hid)]
            rw [hspread]
            have cost := unseenEdges_cons g.ascending hid
            have hnext : (g.entries.find? id).getD [] = g.next id := rfl
            rw [hnext] at cost
            have rest := ih (g.next id ++ pending) (id :: seen)
              (by rw [List.length_append]; omega) (fun a ha b hb => by
                rcases List.mem_cons.mp ha with rfl | ha
                · exact .inr (List.mem_append_left _ hb)
                · rcases closed a ha b hb with h | h
                  · exact .inl (List.mem_cons_of_mem _ h)
                  · rcases List.mem_cons.mp h with rfl | h
                    · exact .inl List.mem_cons_self
                    · exact .inr (List.mem_append_right _ h))
            refine ⟨fun a ha => rest.1 a ?_, rest.2⟩
            rcases ha with ha | ha
            · exact .inl (List.mem_cons_of_mem _ ha)
            · rcases List.mem_cons.mp ha with rfl | ha
              · exact .inl List.mem_cons_self
              · exact .inr (List.mem_append_right _ ha)

/-- Spreading never leaves a set that holds what it starts from and is closed
under edges. -/
theorem spread_subset (g : Graph) {room : Nat} {pending seen : List String}
    (allowed : String → Prop) (step : ∀ a, allowed a → ∀ b ∈ g.next a, allowed b)
    (hpending : ∀ a ∈ pending, allowed a) (hseen : ∀ a ∈ seen, allowed a) :
    ∀ a ∈ g.spread room pending seen, allowed a := by
  induction room generalizing pending seen with
  | zero => exact hseen
  | succ room ih =>
      cases pending with
      | nil => exact hseen
      | cons id pending =>
          have hid : allowed id := hpending id List.mem_cons_self
          have hrest : ∀ a ∈ pending, allowed a :=
            fun a ha => hpending a (List.mem_cons_of_mem _ ha)
          rw [spread]
          split
          · exact ih hrest hseen
          · apply ih
            · intro a ha
              rcases List.mem_append.mp ha with ha | ha
              · exact step id hid a ha
              · exact hrest a ha
            · intro a ha
              rcases List.mem_cons.mp ha with rfl | ha
              · exact hid
              · exact hseen a ha

/-- The ids reached from an id are those at the end of a path from it. -/
theorem mem_reached_iff (g : Graph) {start id : String} :
    id ∈ g.reached start ↔ g.Path start id := by
  have found := spread_closed g ((g.next start).length + g.edgeCount + 1) (g.next start) []
    (by rw [edgeCount_eq]; omega) (by simp)
  constructor
  · intro h
    apply spread_subset g (g.Path start) _ _ (by simp) id h
    · intro a ha b hb
      exact ha.tail hb
    · intro a ha
      exact .single ha
  · intro h
    induction h with
    | single hb => exact found.1 _ (.inr hb)
    | tail _ hb ih => exact found.2 _ ih _ hb

/-- Adding an edge adds that edge. -/
theorem mem_next_addEdge (g : Graph) (source target a b : String) :
    b ∈ (g.addEdge source target).next a ↔ b ∈ g.next a ∨ (a = source ∧ b = target) := by
  unfold addEdge
  split
  · rename_i present
    have present : target ∈ g.next source := by simpa using present
    constructor
    · exact .inl
    · rintro (h | ⟨rfl, rfl⟩)
      · exact h
      · exact present
  · by_cases ha : source = a
    · subst ha
      simp [next, Table.get?_insert]
    · simp [next, Table.get?_insert, ha, Ne.symm ha]

/-- Turning a graph around turns every edge around. -/
theorem mem_next_inverse (g : Graph) {a b : String} : b ∈ g.inverse.next a ↔ a ∈ g.next b := by
  have inner : ∀ (source : String) (targets : List String) (h : Graph),
      b ∈ (targets.foldl (fun h target => addEdge h target source) h).next a ↔
        b ∈ h.next a ∨ (a ∈ targets ∧ b = source) := by
    intro source targets
    induction targets with
    | nil => intro h; simp
    | cons target targets ih =>
        intro h
        rw [List.foldl_cons, ih, mem_next_addEdge, List.mem_cons]
        tauto
  have outer : ∀ (es : Entries (List String)) (h : Graph),
      b ∈ (es.foldl (fun h e => e.2.foldl (fun h target => addEdge h target e.1) h) h).next a ↔
        b ∈ h.next a ∨ ∃ ids, (b, ids) ∈ es ∧ a ∈ ids := by
    intro es
    induction es with
    | nil => intro h; simp
    | cons e es ih =>
        intro h
        obtain ⟨key, ids⟩ := e
        rw [List.foldl_cons, ih, inner]
        simp only [List.mem_cons, Prod.mk.injEq]
        constructor
        · rintro ((h | ⟨h, rfl⟩) | ⟨ids', h, h'⟩)
          · exact .inl h
          · exact .inr ⟨ids, .inl ⟨rfl, rfl⟩, h⟩
          · exact .inr ⟨ids', .inr h, h'⟩
        · rintro (h | ⟨ids', ⟨rfl, rfl⟩ | h, h'⟩)
          · exact .inl (.inl h)
          · exact .inl (.inr ⟨h', rfl⟩)
          · exact .inr ⟨ids', h, h'⟩
  rw [inverse, outer]
  have none : next Table.empty a = [] := rfl
  rw [none]
  simp only [List.not_mem_nil, false_or]
  constructor
  · intro ⟨ids, h, h'⟩
    have hget := (Table.mem_entries_iff g b ids).mp h
    simpa [next, hget] using h'
  · intro h
    unfold next at h
    cases hget : Table.get? g b with
    | none => simp [hget] at h
    | some ids =>
        exact ⟨ids, (Table.mem_entries_iff g b ids).mpr hget, by simpa [hget] using h⟩

end FormulaSheet.Graph
