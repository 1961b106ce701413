import FormulaSheet.Proofs.Circular
import FormulaSheet.Proofs.Search

/-!
# Where a reported cycle is entered

A check that fails reports the way on which its search came into a cycle.  The
search begins at the first id that leads into a cycle, and from every id it
goes on along the first reference that leads into one.  So the report is a
cycle exactly where that way comes back to its beginning.  Elsewhere it begins
with variables that only lead into the cycle, while a read that comes upon the
same cycle leaves them out.

* `Graph.LeadsOn` — the way that a search goes on;
* `Graph.walk_leadsOn` — a search that finds a cycle goes on like this;
* `Sheet.LeadsRound` — what every report says;
* `Sheet.Reaches.isRing_check_iff` — when the report is a cycle.
-/

namespace FormulaSheet

section Round

variable {α : Type} {R : α → α → Prop}

/-- Every place of a way but the last goes on to another. -/
theorem exists_next {ids : List α} {last a : α} (linked : (ids ++ [last]).IsChain R)
    (ha : a ∈ ids) : ∃ b ∈ ids ++ [last], R a b := by
  obtain ⟨front, back, rfl⟩ := List.append_of_mem ha
  obtain ⟨b, more, eq⟩ := List.exists_cons_of_ne_nil (l := back ++ [last]) (by simp)
  rw [List.append_assoc, List.cons_append, eq] at linked ⊢
  have onward := (List.isChain_append.mp linked).2.1
  exact ⟨b, by simp, (List.isChain_cons_cons.mp onward).1⟩

variable (single : Relator.RightUnique R)

include single

/-- Where a relation goes on to one place at most, what comes round stays on
its round. -/
theorem mem_of_round {a b : α} {between : List α} (linked : (a :: between ++ [a]).IsChain R)
    (reaches : Relation.ReflTransGen R a b) : b ∈ a :: between := by
  induction reaches with
  | refl => exact List.mem_cons_self
  | tail _ step ih =>
      obtain ⟨c, hc, step'⟩ := exists_next linked ih
      rw [single step step']
      rcases List.mem_append.mp hc with hc | hc
      · exact hc
      · rw [List.mem_singleton.mp hc]
        exact List.mem_cons_self

/-- Every place on a round leads back to where it began. -/
theorem reaches_back {a b : α} (round : Relation.TransGen R a a)
    (reaches : Relation.ReflTransGen R a b) : Relation.ReflTransGen R b a := by
  induction reaches with
  | refl => exact .refl
  | @tail b c _ step ih =>
      have back : Relation.TransGen R b a := by
        rcases Relation.reflTransGen_iff_eq_or_transGen.mp ih with rfl | back
        · exact round
        · exact back
      obtain ⟨d, step', rest⟩ := Relation.TransGen.head'_iff.mp back
      rw [single step step']
      exact rest

/-- A way that comes back to one of its places, and to none before, comes back
to its beginning if anything leads there. -/
theorem last_eq_iff_round {start last : α} {rest : List α}
    (linked : (start :: rest ++ [last]).IsChain R) (nodup : (start :: rest).Nodup)
    (on : last ∈ start :: rest) : last = start ↔ Relation.TransGen R start start := by
  have leads : ∀ b ∈ rest ++ [last], Relation.TransGen R start b :=
    (List.pairwise_cons.mp (List.isChain_iff_pairwise.mp
      (linked.imp fun _ _ => Relation.TransGen.single))).1
  constructor
  · intro eq
    have back := leads last (by simp)
    rwa [eq] at back
  · intro round
    rcases List.mem_cons.mp on with eq | later
    · exact eq
    · obtain ⟨front, back, rfl⟩ := List.append_of_mem later
      -- from the place that is met again only the round behind it can be reached
      have loop : (last :: back ++ [last]).IsChain R := by
        rw [← List.cons_append, List.append_assoc] at linked
        exact (List.isChain_append.mp linked).2.1
      have again := mem_of_round single loop
        (reaches_back single round (leads last (by simp)).to_reflTransGen)
      exact absurd (List.mem_append_right front again) (List.nodup_cons.mp nodup).1

end Round

namespace Graph

variable {g : Graph}

/-- The first of the ids that `a` has edges to from which a cycle can be
reached is `b`. -/
def LeadsOn (g : Graph) (a b : String) : Prop :=
  ∃ before after, g.next a = before ++ b :: after ∧ g.ReachesCycle b ∧
    ∀ c ∈ before, ¬ g.ReachesCycle c

namespace LeadsOn

theorem edge {a b : String} (h : g.LeadsOn a b) : g.Edge a b := by
  obtain ⟨before, after, split, _⟩ := h
  rw [Edge, split]
  exact List.mem_append_right _ List.mem_cons_self

/-- An id leads on to one other at most. -/
theorem unique : Relator.RightUnique g.LeadsOn := by
  intro a b c hb hc
  obtain ⟨before, after, split, reaches, dead⟩ := hb
  obtain ⟨before', after', split', reaches', dead'⟩ := hc
  rw [split] at split'
  rcases List.append_eq_append_iff.mp split' with ⟨ids, hids, rest⟩ | ⟨ids, hids, rest⟩
  · cases ids with
    | nil => exact (List.cons.inj rest).1
    | cons d ids =>
        obtain ⟨rfl, _⟩ := List.cons.inj rest
        exact absurd reaches (dead' b (by simp [hids]))
  · cases ids with
    | nil => exact (List.cons.inj rest).1.symm
    | cons d ids =>
        obtain ⟨rfl, _⟩ := List.cons.inj rest
        exact absurd reaches' (dead c (by simp [hids]))

end LeadsOn

/-- What a cycle can be reached from has an entry. -/
theorem ReachesCycle.mem_keys {id : String} (h : g.ReachesCycle id) : id ∈ Table.keys g := by
  obtain ⟨a, reaches, cycle⟩ := h
  have path : g.Path id a := Relation.TransGen.trans_right reaches cycle
  obtain ⟨b, edge, _⟩ := Relation.TransGen.head'_iff.mp path
  exact mem_keys_of_edge edge

/-- With room for every id that has edges, what a walk finds leads on, step by
step, if the way before it did. -/
theorem walk_leadsOn {room : Nat} {path : List String} {id : String} {way : List String}
    (nodup : path.Nodup) (known : path ⊆ Table.keys g)
    (enough : Table.size g ≤ path.length + room)
    (linked : (id :: path).IsChain (Function.swap g.LeadsOn))
    (h : g.walk room path id = some way) : way.IsChain g.LeadsOn := by
  induction room generalizing path id with
  | zero =>
      by_cases on : id ∈ path
      · rw [walk_of_mem on] at h
        cases h
        exact List.isChain_reverse.mpr linked
      · rw [walk_zero on] at h
        cases h
  | succ room ih =>
      by_cases on : id ∈ path
      · rw [walk_of_mem on] at h
        cases h
        exact List.isChain_reverse.mpr linked
      · rw [walk_succ on] at h
        obtain ⟨before, b, after, split, found, passed⟩ := List.findSome?_eq_some_iff.mp h
        have edge : g.Edge id b := by
          rw [Edge, split]
          exact List.mem_append_right _ List.mem_cons_self
        have nodup' := List.nodup_cons.mpr ⟨on, nodup⟩
        have known' := List.cons_subset.mpr ⟨mem_keys_of_edge edge, known⟩
        have enough' : Table.size g ≤ (id :: path).length + room := by
          rw [List.length_cons]
          omega
        have below : ∀ a ∈ path, g.Path a id := by
          have downward := linked.imp fun a b (leads : g.LeadsOn b a) =>
            (Relation.TransGen.single leads.edge : Relation.TransGen (Function.swap g.Edge) a b)
          intro a ha
          exact Relation.transGen_swap.mp
            ((List.pairwise_cons.mp (List.isChain_iff_pairwise.mp downward)).1 a ha)
        have reaches : g.ReachesCycle b := by
          obtain ⟨a, leads, met | cycle⟩ := exists_cycle_of_walk found
          · -- the walk came back to an id on its way, from which `b` is reached
            have onward : Relation.ReflTransGen g.Edge a id := by
              rcases List.mem_cons.mp met with rfl | met
              · exact .refl
              · exact (below a met).to_reflTransGen
            exact ⟨b, .refl, Relation.TransGen.tail' (leads.trans onward) edge⟩
          · exact ⟨a, leads, cycle⟩
        refine ih nodup' known' enough' (List.isChain_cons_cons.mpr ⟨?_, linked⟩) found
        refine ⟨before, after, split, reaches, fun c hc => ?_⟩
        exact (grounded_of_walk nodup' known' enough' (passed c hc)).not_reachesCycle

/-- The first of the ids from which a cycle can be reached. -/
structure IsEntrance (g : Graph) (first : String) : Prop where
  reaches : g.ReachesCycle first
  least : ∀ id, g.ReachesCycle id → first ≤ id

/-- There is one first id. -/
theorem IsEntrance.unique {a b : String} (ha : g.IsEntrance a) (hb : g.IsEntrance b) : a = b :=
  String.le_antisymm (ha.least b hb.reaches) (hb.least a ha.reaches)

/-- Ids that are tried in order are tried up to the entrance. -/
theorem isEntrance_of_findSome? {way : List String}
    (h : (Table.keys g).findSome? g.cycleFrom? = some way) :
    ∃ first, g.IsEntrance first ∧ g.cycleFrom? first = some way := by
  obtain ⟨before, first, after, split, found, passed⟩ := List.findSome?_eq_some_iff.mp h
  refine ⟨first, ⟨cycleFrom?_isSome_iff.mp (Option.isSome_of_eq_some found), ?_⟩, found⟩
  intro id reaches
  have known := reaches.mem_keys
  have ascending : (Table.keys g).Pairwise (· < ·) := List.pairwise_map.mpr g.ascending
  rw [split] at known ascending
  rcases List.mem_append.mp known with dead | known
  · have none := passed id dead
    have some := cycleFrom?_isSome_iff.mpr reaches
    rw [none] at some
    cases some
  · rcases List.mem_cons.mp known with rfl | later
    · exact String.le_refl id
    · have above := (List.pairwise_cons.mp (List.pairwise_append.mp ascending).2.1).1
      exact Std.le_of_lt (above id later)

/-- A way that leads round, with its last id apart. -/
theorem LeadsRound.exists_cons {start : String} {way : List String} (h : g.LeadsRound start way) :
    ∃ rest last, way = start :: rest ++ [last] ∧ last ∈ start :: rest ∧
      (start :: rest).Nodup := by
  obtain ⟨begins, _, ids, last, rfl, on, nodup⟩ := h
  cases ids with
  | nil => cases on
  | cons id rest =>
      rw [List.cons_append, List.head?_cons, Option.some_inj] at begins
      subst begins
      exact ⟨rest, last, rfl, on, nodup⟩

end Graph

namespace Sheet

variable {s : Sheet}

/-- Names along a way from an id that comes back to one of them, and to none
before: the formula of each refers to the next. -/
structure LeadsRound (s : Sheet) (first : String) (path : List String) : Prop where
  begins : path.head? = some (s.nameOf first)
  linked : path.IsChain s.Mentions
  returns : ∃ names last, path = names ++ [last] ∧ last ∈ names ∧ names.Nodup

/-- Ids that have dependencies go by different names. -/
theorem Consistent.eq_of_nameOf_eq (hs : s.Consistent) {a b : String}
    (ha : ∃ c, s.dependencies.Edge a c) (hb : ∃ c, s.dependencies.Edge b c)
    (eq : s.nameOf a = s.nameOf b) : a = b := by
  have named : ∀ {a}, (∃ c, s.dependencies.Edge a c) → s.names.get? (s.nameOf a) = some a := by
    rintro a ⟨c, edge⟩
    obtain ⟨v, _, hv, _⟩ := hs.mem_next_dependencies.mp edge
    exact hs.name_iff.mpr ⟨v, hv, by rw [nameOf, hv]⟩
  have same := named ha
  rw [eq, named hb] at same
  exact (Option.some.inj same).symm

/-- A check that fails reports the names of a way that leads on from the
entrance. -/
theorem exists_way_of_checkCycles {path : List String}
    (failed : s.checkCycles = .error (.circularDependency path)) :
    ∃ first way, path = way.map s.nameOf ∧ s.dependencies.IsEntrance first ∧
      s.dependencies.LeadsRound first way ∧ way.IsChain s.dependencies.LeadsOn := by
  unfold checkCycles at failed
  split at failed
  · rename_i way found
    cases failed
    obtain ⟨first, entrance, search⟩ := Graph.isEntrance_of_findSome? found
    refine ⟨first, way, rfl, entrance, ?_, ?_⟩
    · exact Graph.leadsRound_of_walk List.nodup_nil (.singleton first) rfl search
    · exact Graph.walk_leadsOn List.nodup_nil (List.nil_subset _) (by simp) (.singleton first)
        search
  · cases failed

/-- **What a check reports, and when it is a cycle.**  The report of a check
that fails begins at the first id from which a cycle can be reached, and comes
back to one of its names, and to none before.  It is a cycle exactly if that id
is come back to by going on, from every id, along the first reference that
leads into a cycle. -/
theorem Reaches.isRing_check_iff {allowed : Sheet → Operation → Prop} {e : Evaluator}
    (h : Reaches allowed (ofEvaluator e) s) {path : List String}
    (failed : s.checkCycles = .error (.circularDependency path)) :
    (∃ first, s.dependencies.IsEntrance first) ∧
      ∀ first, s.dependencies.IsEntrance first → s.LeadsRound first path ∧
        (IsRing s.Mentions path ↔ Relation.TransGen s.dependencies.LeadsOn first first) := by
  have hs := h.consistent
  obtain ⟨start, way, rfl, entrance, round, leads⟩ := exists_way_of_checkCycles failed
  refine ⟨⟨start, entrance⟩, ?_⟩
  intro first hfirst
  obtain rfl := hfirst.unique entrance
  have linked := round.linked
  obtain ⟨rest, last, rfl, on, nodup⟩ := round.exists_cons
  have edges : ∀ a ∈ first :: rest, ∃ b, s.dependencies.Edge a b := by
    intro a ha
    obtain ⟨b, _, edge⟩ := exists_next linked ha
    exact ⟨b, edge⟩
  have mentions : ((first :: rest ++ [last]).map s.nameOf).IsChain s.Mentions := by
    rw [List.isChain_map]
    exact linked.imp fun a b edge => hs.mentions_of_refersTo (hs.mem_next_dependencies.mp edge)
  have distinct : ((first :: rest).map s.nameOf).Nodup :=
    nodup.map_on fun a ha b hb => hs.eq_of_nameOf_eq (edges a ha) (edges b hb)
  refine ⟨⟨rfl, mentions, (first :: rest).map s.nameOf, s.nameOf last, by simp,
    List.mem_map_of_mem on, distinct⟩, ?_⟩
  rw [← last_eq_iff_round Graph.LeadsOn.unique leads nodup on]
  constructor
  · rintro ⟨⟨a, between, eq, _⟩, _⟩
    rw [List.map_append, List.map_cons, List.cons_append] at eq
    obtain ⟨rfl, eq⟩ := List.cons.inj eq
    have same : s.nameOf last = s.nameOf first :=
      (List.cons.inj (List.append_inj_right' eq rfl)).1
    exact hs.eq_of_nameOf_eq (edges last on) (edges first List.mem_cons_self) same
  · rintro rfl
    exact ⟨⟨s.nameOf last, rest.map s.nameOf, by simp, distinct⟩, mentions⟩

theorem checkCycles_of_findSome? {way path : List String}
    (found : s.dependencies.keys.findSome? s.dependencies.cycleFrom? = some way)
    (names : way.map s.nameOf = path) :
    s.checkCycles = .error (.circularDependency path) := by
  rw [checkCycles, found, ← names]

/-- The loop without the gate that looks into it. -/
def bareLoopSheet : Sheet := loopSheet.apply (.unregister "either")

/-- Of a loop that nothing leads into the check reports the cycle. -/
theorem isRing_check_bareLoopSheet :
    bareLoopSheet.checkCycles = .error (.circularDependency ["flag", "opposite", "flag"]) ∧
      bareLoopSheet.dependencies.IsEntrance "flag" ∧
      bareLoopSheet.LeadsRound "flag" ["flag", "opposite", "flag"] ∧
      IsRing bareLoopSheet.Mentions ["flag", "opposite", "flag"] := by
  have reached : Reaches Unrestored (ofEvaluator plainEvaluator) bareLoopSheet :=
    .step loopSheet_reached trivial
  have found : bareLoopSheet.dependencies.keys.findSome? bareLoopSheet.dependencies.cycleFrom? =
      some ["flag", "opposite", "flag"] := by
    decide +kernel
  have failed := checkCycles_of_findSome? found
    (show _ = ["flag", "opposite", "flag"] by decide +kernel)
  have flagReaches : bareLoopSheet.dependencies.ReachesCycle "flag" :=
    Graph.cycleFrom?_isSome_iff.mp (by decide +kernel)
  have oppositeReaches : bareLoopSheet.dependencies.ReachesCycle "opposite" :=
    Graph.cycleFrom?_isSome_iff.mp (by decide +kernel)
  have entrance : bareLoopSheet.dependencies.IsEntrance "flag" := by
    refine ⟨flagReaches, fun id reaches => ?_⟩
    have least : ∀ id ∈ bareLoopSheet.dependencies.keys, "flag" ≤ id := by decide +kernel
    exact least id reaches.mem_keys
  have there : bareLoopSheet.dependencies.LeadsOn "flag" "opposite" :=
    ⟨[], [], by decide +kernel, oppositeReaches, by simp⟩
  have back : bareLoopSheet.dependencies.LeadsOn "opposite" "flag" :=
    ⟨[], [], by decide +kernel, flagReaches, by simp⟩
  obtain ⟨_, reported⟩ := Reaches.isRing_check_iff reached failed
  obtain ⟨round, ring⟩ := reported "flag" entrance
  exact ⟨failed, entrance, round, ring.mpr (.tail (.single there) back)⟩

/-- Of the same loop the check reports the gate that looks into it as well,
though that gate is on no cycle. -/
theorem check_loopSheet_not_isRing :
    Reaches Unrestored (ofEvaluator plainEvaluator) loopSheet ∧
      loopSheet.checkCycles =
        .error (.circularDependency ["either", "flag", "opposite", "flag"]) ∧
      ¬ IsRing loopSheet.Mentions ["either", "flag", "opposite", "flag"] := by
  have found : loopSheet.dependencies.keys.findSome? loopSheet.dependencies.cycleFrom? =
      some ["either", "flag", "opposite", "flag"] := by
    decide +kernel
  refine ⟨loopSheet_reached, checkCycles_of_findSome? found (by decide +kernel), ?_⟩
  rintro ⟨⟨a, between, eq, _⟩, _⟩
  obtain ⟨rfl, eq⟩ := List.cons.inj eq
  have last := congrArg List.getLast? eq
  rw [List.getLast?_concat] at last
  exact absurd last (by decide)

end Sheet

end FormulaSheet
