import Mathlib.Data.Finset.Basic
import Mathlib.Data.Finset.Dedup
import Mathlib.Data.List.Chain
import FormulaSheet.Proofs.Cycle

/-!
# The search for a cycle

A depth-first search marks the ids that it is on the way through and takes the
marks off again as it goes back.  It keeps no record of where it has been
before, and nothing bounds it but the graph.  Here the search is described by
rules, with its marks and its way, and every search is shown to come to an end
with the answer of `Graph.cycleFrom?`.

The marks are those of the way.  An id is entered only if it has an entry and
no mark, so there are fewer ids to enter at every step down, and a search that
goes back leaves the marks and the way as it found them.

* `Graph.Search` — the search, without an allowance of ids to enter;
* `Graph.search_walk`, `Graph.Search.unique` — it comes to one end, that of the
  walk;
* `Graph.LeadsRound` — a way that comes back to one of its ids;
* `Graph.cycleFrom?_exact` — when the search finds a cycle, and what it reports.
-/

namespace FormulaSheet.Graph

variable {g : Graph}

/-- Where a search stands: the ids that are marked, and the way so far. -/
structure Trail where
  marked : Finset String
  way : List String

namespace Trail

/-- Where a search begins. -/
def start : Trail := ⟨∅, []⟩

/-- Goes on to an id and marks it. -/
def enter (t : Trail) (id : String) : Trail := ⟨insert id t.marked, t.way ++ [id]⟩

/-- Takes the mark off an id and goes back from it. -/
def leave (t : Trail) (id : String) : Trail := ⟨t.marked.erase id, t.way.dropLast⟩

/-- What is answered of a search: its way, if it has found something. -/
def report (t : Trail) (found : Bool) : Option (List String) := if found then some t.way else none

end Trail

/-- `Search g t ids found t'`: from where `t` stands the ids are searched in
turn, up to the first from which a cycle is found, and the search comes to
stand at `t'`. -/
inductive Search (g : Graph) : Trail → List String → Bool → Trail → Prop
  | nil {t : Trail} : Search g t [] false t
  /-- An id that is marked closes a cycle. -/
  | closes {t : Trail} {id : String} {ids : List String} : id ∈ t.marked →
      Search g t (id :: ids) true { t with way := t.way ++ [id] }
  /-- Nothing leads on from an id without an entry. -/
  | ends {t t' : Trail} {id : String} {ids : List String} {found : Bool} : id ∉ t.marked →
      Table.get? g id = none → Search g t ids found t' → Search g t (id :: ids) found t'
  | finds {t t' : Trail} {id : String} {ids next : List String} : id ∉ t.marked →
      Table.get? g id = some next → Search g (t.enter id) next true t' →
      Search g t (id :: ids) true t'
  | returns {t t' t'' : Trail} {id : String} {ids next : List String} {found : Bool} :
      id ∉ t.marked → Table.get? g id = some next → Search g (t.enter id) next false t' →
      Search g (t'.leave id) ids found t'' → Search g t (id :: ids) found t''

/-- A search comes to one end. -/
theorem Search.unique {t t' t'' : Trail} {ids : List String} {found found' : Bool}
    (h : Search g t ids found t') (h' : Search g t ids found' t'') :
    found = found' ∧ t' = t'' := by
  induction h generalizing found' t'' with
  | nil =>
      cases h'
      exact ⟨rfl, rfl⟩
  | closes marked =>
      cases h' with
      | closes => exact ⟨rfl, rfl⟩
      | ends off | finds off | returns off => exact absurd marked off
  | ends off none _ ih =>
      cases h' with
      | closes marked => exact absurd marked off
      | ends _ _ rest => exact ih rest
      | finds _ some | returns _ some => rw [none] at some; cases some
  | finds off some _ ih =>
      cases h' with
      | closes marked => exact absurd marked off
      | ends _ none => rw [some] at none; cases none
      | finds _ some' below =>
          rw [some] at some'
          cases some'
          exact ih below
      | returns _ some' below =>
          rw [some] at some'
          cases some'
          cases (ih below).1
  | returns off some _ _ ih ihrest =>
      cases h' with
      | closes marked => exact absurd marked off
      | ends _ none => rw [some] at none; cases none
      | finds _ some' below =>
          rw [some] at some'
          cases some'
          cases (ih below).1
      | returns _ some' below rest =>
          rw [some] at some'
          cases some'
          obtain ⟨_, rfl⟩ := ih below
          exact ihrest rest

namespace Trail

/-- The trail of a path, which has its last id first. -/
def along (path : List String) : Trail := ⟨path.toFinset, path.reverse⟩

/-- The trail at the end of a search: that of the path before it, or of the way
that was found. -/
def after (path : List String) : Option (List String) → Trail
  | some way => ⟨way.toFinset, way⟩
  | none => along path

theorem enter_along (path : List String) (id : String) :
    (along path).enter id = along (id :: path) := by
  simp [along, enter]

theorem leave_along {path : List String} {id : String} (off : id ∉ path) :
    (along (id :: path)).leave id = along path := by
  simp [along, leave, Finset.erase_insert (mt List.mem_toFinset.mp off)]

end Trail

/-- A way that comes back to an id on it ends with the marks that it has. -/
theorem Trail.after_of_mem {path : List String} {id : String} (on : id ∈ path) :
    after path (some (id :: path).reverse) =
      { along path with way := (along path).way ++ [id] } := by
  have marks : (id :: path).reverse.toFinset = path.toFinset := by
    ext other
    rw [List.mem_toFinset, List.mem_reverse, List.mem_toFinset, List.mem_cons]
    exact or_iff_right_of_imp fun eq => eq ▸ on
  rw [after, marks, List.reverse_cons]
  rfl

/-- With room for every id that has edges, a search ends as the walk does. -/
theorem search_walk {room : Nat} {path : List String} (nodup : path.Nodup)
    (known : path ⊆ Table.keys g) (enough : Table.size g ≤ path.length + room)
    (ids : List String) :
    Search g (.along path) ids (ids.findSome? (g.walk room path)).isSome
      (.after path (ids.findSome? (g.walk room path))) := by
  induction room using Nat.strongRecOn generalizing path ids with
  | ind room below =>
      induction ids with
      | nil => exact .nil
      | cons id ids rest =>
          rw [List.findSome?_cons]
          by_cases on : id ∈ path
          · rw [walk_of_mem on]
            dsimp only
            rw [Trail.after_of_mem on]
            exact .closes (List.mem_toFinset.mpr on)
          · have off : id ∉ (Trail.along path).marked := mt List.mem_toFinset.mp on
            cases entry : Table.get? g id with
            | none =>
                rw [walk_of_get?_eq_none on entry]
                exact .ends off entry rest
            | some next =>
                -- an id that can be entered takes one from the room
                have fits := length_lt_size nodup known on (mem_keys_of_get? entry)
                obtain ⟨room, rfl⟩ : ∃ less, room = less + 1 := ⟨room - 1, by omega⟩
                have inner := below room (Nat.lt_succ_self room)
                  (List.nodup_cons.mpr ⟨on, nodup⟩)
                  (List.cons_subset.mpr ⟨mem_keys_of_get? entry, known⟩)
                  (by rw [List.length_cons]; omega) next
                rw [← Trail.enter_along] at inner
                rw [walk_of_get? on entry]
                cases found : next.findSome? (g.walk room (id :: path)) with
                | some way =>
                    rw [found] at inner
                    exact .finds off entry inner
                | none =>
                    rw [found] at inner
                    refine .returns off entry inner ?_
                    rw [Trail.after, Trail.leave_along on]
                    exact rest

/-- A way along edges that comes back to one of its ids, and to none before. -/
structure LeadsRound (g : Graph) (start : String) (way : List String) : Prop where
  begins : way.head? = some start
  linked : way.IsChain g.Edge
  returns : ∃ ids last, way = ids ++ [last] ∧ last ∈ ids ∧ ids.Nodup

/-- A path that comes to an id on it, turned around. -/
theorem leadsRound_of_mem {path : List String} {id : String} (nodup : path.Nodup)
    (linked : (id :: path).IsChain (Function.swap g.Edge)) (on : id ∈ path) {start : String}
    (begins : (id :: path).reverse.head? = some start) :
    g.LeadsRound start (id :: path).reverse where
  begins := begins
  linked := List.isChain_reverse.mpr linked
  returns := ⟨path.reverse, id, List.reverse_cons, List.mem_reverse.mpr on,
    List.nodup_reverse.mpr nodup⟩

/-- What a walk finds goes on along the way that it had gone, and leads round. -/
theorem leadsRound_of_walk {room : Nat} {path : List String} {id start : String}
    {way : List String} (nodup : path.Nodup)
    (linked : (id :: path).IsChain (Function.swap g.Edge))
    (begins : (id :: path).reverse.head? = some start)
    (h : g.walk room path id = some way) : g.LeadsRound start way := by
  induction room generalizing path id with
  | zero =>
      by_cases on : id ∈ path
      · rw [walk_of_mem on] at h
        cases h
        exact leadsRound_of_mem nodup linked on begins
      · rw [walk_zero on] at h
        cases h
  | succ room ih =>
      by_cases on : id ∈ path
      · rw [walk_of_mem on] at h
        cases h
        exact leadsRound_of_mem nodup linked on begins
      · rw [walk_succ on] at h
        obtain ⟨next, edge, found⟩ := List.exists_of_findSome?_eq_some h
        refine ih (List.nodup_cons.mpr ⟨on, nodup⟩)
          (List.isChain_cons_cons.mpr ⟨edge, linked⟩) ?_ found
        rw [List.reverse_cons, List.head?_append, begins, Option.some_or]

/-- **The search for a cycle is exact.**  It comes to an end, with one answer;
it finds nothing exactly where no cycle can be reached; and what it finds is a
way from where it began that comes back to one of its ids, and to none before. -/
theorem cycleFrom?_exact (g : Graph) (start : String) :
    ((∃ found t, Search g .start [start] found t) ∧
      ∀ found t, Search g .start [start] found t → t.report found = g.cycleFrom? start) ∧
    (g.cycleFrom? start = none ↔ ¬ g.ReachesCycle start) ∧
    ∀ way, g.cycleFrom? start = some way → g.LeadsRound start way := by
  have enough : Table.size g ≤ ([] : List String).length + Table.size g := by simp
  have ends := search_walk List.nodup_nil (List.nil_subset (Table.keys g)) enough [start]
  rw [List.findSome?_singleton] at ends
  refine ⟨⟨⟨_, _, ends⟩, ?_⟩, ?_, ?_⟩
  · intro found t search
    obtain ⟨rfl, rfl⟩ := search.unique ends
    unfold cycleFrom?
    cases g.walk (Table.size g) [] start <;> rfl
  · rw [← cycleFrom?_isSome_iff, Option.not_isSome_iff_eq_none]
  · intro way found
    exact leadsRound_of_walk List.nodup_nil (.singleton start) rfl found

/-- Two ways to one id, from which an edge leads to an id without an entry; one
of them passes an id with an edge to itself. -/
def forked : Graph :=
  .ofList [("a", ["b", "c"]), ("b", ["d"]), ("c", ["d", "c"]), ("d", ["ghost"])]

/-- The search goes down the one way and back, down the other to its end and
back, and then comes round.  From the one way alone it finds nothing. -/
theorem cycleFrom?_exact_forked :
    (forked.cycleFrom? "a" = some ["a", "c", "c"] ∧ forked.LeadsRound "a" ["a", "c", "c"]) ∧
      forked.cycleFrom? "b" = none ∧ ¬ forked.ReachesCycle "b" ∧
      ∃ found t, Search forked .start ["b"] found t := by
  obtain ⟨_, _, leads⟩ := cycleFrom?_exact forked "a"
  obtain ⟨⟨ends, _⟩, nothing, _⟩ := cycleFrom?_exact forked "b"
  have around : forked.cycleFrom? "a" = some ["a", "c", "c"] := by decide +kernel
  have aside : forked.cycleFrom? "b" = none := by decide +kernel
  exact ⟨⟨around, leads _ around⟩, aside, nothing.mp aside, ends⟩

end FormulaSheet.Graph
