import FormulaSheet.Proofs.Equation

/-!
# What the reads within a read leave

Evaluating a formula reads what it refers to, and so on; so reads are nested, and
values are put in place at every depth, also on behalf of formulas that come to
nothing in the end.  Here the reads that are made within a read are laid out: each
has a stack, of those ids whose evaluation is in progress, and begins with what the
reads before it have left.

Reading only adds.  What is added is the value of an evaluation that was completed;
and where an evaluation fails, so do all on its stack, and none of them adds
anything.  This is so whatever cycles there are, as a read that comes upon its own
stack is one more that fails.

* `Sheet.Visit`, `Sheet.Visit.Asks` — a read, and those that it makes;
* `Sheet.Visit.Asks.failed` — a read fails with those that it makes;
* `Sheet.Visit.exists_completed` — what is added was evaluated;
* `Sheet.Reaches.read_adds` — what a read changes.
-/

namespace FormulaSheet

namespace Sheet

variable {s : Sheet}

/-- A read that is made: of an id, while those on the stack are being evaluated. -/
structure Visit where
  room : Nat
  stack : List String
  id : String
  held : Held

namespace Visit

variable {q q' : Visit} {origin : String}

/-- What the read comes to. -/
def result (s : Sheet) (q : Visit) : Except SheetError Value × Held :=
  s.readFrom q.room q.stack q.id q.held

/-- The read of an id from outside. -/
def outer (s : Sheet) (id : String) : Visit := ⟨s.size + 1, [], id, s.held⟩

/-- The read evaluates the formula of a variable, with this room for those that it
makes. -/
structure Evaluates (s : Sheet) (q : Visit) (room : Nat) (v : Variable) (formula : String) :
    Prop where
  definition : s.definitions.get? q.id = some v
  isFormula : v.formula = some formula
  free : q.held.values.get? q.id = none
  off : q.id ∉ q.stack
  hasRoom : q.room = room + 1

/-- What reading the references of a part of its formula comes to. -/
def gather (s : Sheet) (q : Visit) (room : Nat) (o : Outline) : List Char × Gathering :=
  o.fill (s.lookUp (s.readFrom room (q.id :: q.stack))) ⟨q.held, none⟩

/-- A read makes another, of what its formula refers to in a place, once those
references were read that are before it. -/
inductive Asks (s : Sheet) (q : Visit) : Visit → Prop
  | reference {room : Nat} {v : Variable} {formula other : String} {before after : Outline}
      {w : List Char} {held : Held} :
      q.Evaluates s room v formula → bodyOf formula = before ++ .reference w :: after →
      s.names.get? (String.ofList w) = some other →
      (q.gather s room before).2 = ⟨held, none⟩ →
      Asks s q ⟨room, q.id :: q.stack, other, held⟩

/-- A read is made within another, at some depth. -/
def Within (s : Sheet) : Visit → Visit → Prop := Relation.ReflTransGen (Asks s)

/-- A read that completes the evaluation of a formula with a value. -/
def Completes (s : Sheet) (q : Visit) (value : Value) : Prop :=
  (∃ room v formula, q.Evaluates s room v formula) ∧ (q.result s).1 = .ok value

section Evaluates

variable {room : Nat} {v : Variable} {formula : String}

/-- A visit that evaluates settles what it gathers. -/
theorem Evaluates.result_eq (h : q.Evaluates s room v formula) : q.result s =
    s.settle v q.id (q.gather s room (bodyOf formula)).1 (q.gather s room (bodyOf formula)).2 := by
  rw [result, h.hasRoom, readFrom_of_off h.definition h.isFormula h.free h.off]
  rfl

/-- Gathering only adds values. -/
theorem gather_grows (s : Sheet) (q : Visit) (room : Nat) (o : Outline) :
    Grows s (q.id :: q.stack) q.held (q.gather s room o).2.held :=
  fill_grows (q.id :: q.stack) (s.readFrom_grows room (q.id :: q.stack)) o ⟨q.held, none⟩

/-- No value is put in place for the variable while its formula is evaluated. -/
theorem Evaluates.still_free (h : q.Evaluates s room v formula) (o : Outline) :
    (q.gather s room o).2.held.values.get? q.id = none :=
  (gather_grows s q room o).get?_eq_none List.mem_cons_self h.free

/-- What was left by the references is kept when the formula is settled. -/
theorem Evaluates.grows (h : q.Evaluates s room v formula) :
    Grows s [] (q.gather s room (bodyOf formula)).2.held (q.result s).2 := by
  rw [h.result_eq]
  exact settle_grows [] _ _ (isDerived_of_formula h.definition h.isFormula) List.not_mem_nil
    (h.still_free (bodyOf formula))

/-- An evaluation that is completed puts its value in place. -/
theorem Completes.held {value : Value} (h : q.Completes s value) :
    (q.result s).2.values.get? q.id = some value := by
  obtain ⟨⟨room, v, formula, evaluates⟩, completed⟩ := h
  rw [evaluates.result_eq] at completed ⊢
  rcases s.settle_cases v q.id (q.gather s room (bodyOf formula)).1
      (q.gather s room (bodyOf formula)).2 with ⟨cause, failed, _⟩ | ⟨value', ok, left⟩
  · rw [failed] at completed
    cases completed
  · rw [ok] at completed
    cases completed
    rw [left, Table.get?_insert, if_pos rfl]

/-- A read evaluates a formula or leaves everything as it is. -/
theorem evaluates_or (s : Sheet) (q : Visit) :
    (∃ room v formula, q.Evaluates s room v formula) ∨ (q.result s).2 = q.held := by
  cases hroom : q.room with
  | zero =>
      right
      rw [result, hroom]
      rfl
  | succ room =>
      rw [result, hroom]
      apply readFrom_cases (P := fun r => (∃ room v formula, q.Evaluates s room v formula) ∨
        r.2 = q.held)
      case unknown | held | source | on =>
        intros
        exact .inr rfl
      case off =>
        exact fun hv hformula free off => .inl ⟨room, _, _, hv, hformula, free, off, hroom⟩

end Evaluates

namespace Asks

/-- A read makes those of what its variable refers to. -/
theorem refersTo (h : Asks s q q') : s.RefersTo q.id q'.id := by
  cases h with
  | @reference room v formula other before after w held evaluates body hname _ =>
      refine ⟨v, formula, evaluates.definition, evaluates.isFormula, String.ofList w, ?_, hname⟩
      rw [body]
      simp [Outline.mentions, Piece.reference?]

/-- The visit that is asked for has the asker on its stack. -/
theorem stack_eq (h : Asks s q q') : q'.stack = q.id :: q.stack := by
  cases h
  rfl

/-- A visit that asks for another is not on its own stack. -/
theorem off (h : Asks s q q') : q.id ∉ q.stack := by
  cases h with
  | reference evaluates => exact evaluates.off

/-- The references after one that was read are read from what it left; none are if
it failed. -/
theorem gather_eq (h : Asks s q q') : ∃ room v formula, ∃ after : Outline,
    q.Evaluates s room v formula ∧ (q.gather s room (bodyOf formula)).2 =
      (after.fill (s.lookUp (s.readFrom room (q.id :: q.stack)))
        ⟨(q'.result s).2, SheetError.of? (q'.result s).1⟩).2 := by
  cases h with
  | @reference room v formula other before after w held evaluates body hname found =>
      refine ⟨room, v, formula, after, evaluates, ?_⟩
      rw [gather] at found
      rw [gather, body, Outline.fill_append, found]
      dsimp only [Outline.fill, result]
      rcases hresult : s.readFrom room (q.id :: q.stack) other held with ⟨answer, left⟩
      cases answer with
      | error cause => rw [lookUp_of_error hname rfl hresult]; rfl
      | ok value => rw [lookUp_of_ok hname rfl hresult]; rfl

/-- What a read leaves is kept by the read that has made it. -/
theorem grows (h : Asks s q q') : Grows s [] (q'.result s).2 (q.result s).2 := by
  obtain ⟨room, v, formula, after, evaluates, gathered⟩ := h.gather_eq
  have later := fill_grows (q.id :: q.stack) (s.readFrom_grows room (q.id :: q.stack)) after
    ⟨(q'.result s).2, SheetError.of? (q'.result s).1⟩
  rw [← gathered] at later
  exact later.of_nil.trans evaluates.grows

/-- A read fails with one that it has made, and adds nothing more. -/
theorem failed (h : Asks s q q') {cause : SheetError} (hcause : (q'.result s).1 = .error cause) :
    (q.result s).1 = .error cause ∧ (q.result s).2.values = (q'.result s).2.values := by
  obtain ⟨room, v, formula, after, evaluates, gathered⟩ := h.gather_eq
  have failure : SheetError.of? (q'.result s).1 = some cause := by
    rw [hcause]
    rfl
  rw [failure, fill_of_failed after rfl] at gathered
  rw [evaluates.result_eq, gathered, settle_of_failed rfl]
  exact ⟨rfl, rfl⟩

end Asks

namespace Within

/-- What a read leaves is kept to the end. -/
theorem grows (h : Within s q q') : Grows s [] (q'.result s).2 (q.result s).2 := by
  induction h with
  | refl => exact .refl s [] (q.result s).2
  | tail _ asks ih => exact asks.grows.trans ih

/-- Every read fails with any that is made within it, and what that one left is
all. -/
theorem failed (h : Within s q q') {cause : SheetError} (hcause : (q'.result s).1 = .error cause) :
    (q.result s).1 = .error cause ∧ (q.result s).2.values = (q'.result s).2.values := by
  induction h with
  | refl => exact ⟨hcause, rfl⟩
  | tail _ asks ih =>
      obtain ⟨here, left⟩ := asks.failed hcause
      obtain ⟨whole, same⟩ := ih here
      exact ⟨whole, same.trans left⟩

end Within

/-- What holds of every read that is made within one from outside. -/
structure Proper (s : Sheet) (origin : String) (q : Visit) : Prop where
  stacked : Stacked s q.stack q.room
  free : ∀ other ∈ q.stack, q.held.values.get? other = none
  known : ∀ {other value}, q.held.values.get? other = some value →
    (s.definitions.get? other).isSome = true
  reached : Relation.ReflTransGen s.RefersTo origin q.id

namespace Proper

/-- The outermost visit is proper. -/
theorem outer (hs : s.Consistent) (id : String) : Proper s id (outer s id) where
  stacked := .start s
  free := nofun
  known := fun held => hs.held held
  reached := .refl

/-- So is one that a proper visit asks for. -/
theorem asks (hq : q.Proper s origin) (h : Asks s q q') : q'.Proper s origin := by
  have reached := hq.reached.tail h.refersTo
  cases h with
  | @reference room v formula other before after w held evaluates body hname found =>
      have derived := isDerived_of_formula evaluates.definition evaluates.isFormula
      have grows := gather_grows s q room before
      rw [found] at grows
      refine ⟨?_, ?_, ?_, reached⟩
      · exact (evaluates.hasRoom ▸ hq.stacked).push derived evaluates.off
      · intro below on
        refine grows.get?_eq_none on ?_
        rcases List.mem_cons.mp on with rfl | on
        · exact evaluates.free
        · exact hq.free below on
      · intro below value hvalue
        rcases grows.adds hvalue with before | ⟨added, _⟩
        · exact hq.known before
        · cases hv : s.definitions.get? below with
          | none => rw [isDerived, hv] at added; cases added
          | some _ => rfl

/-- So is any within a proper visit. -/
theorem within (hq : q.Proper s origin) (h : Within s q q') : q'.Proper s origin := by
  induction h with
  | refl => exact hq
  | tail _ asks ih => exact ih.asks asks

/-- Where a read fails its id holds no value afterwards, nor do those that are being
evaluated. -/
theorem free_of_failed (hq : q.Proper s origin) {cause : SheetError}
    (hcause : (q.result s).1 = .error cause) :
    ∀ other ∈ q.id :: q.stack, (q.result s).2.values.get? other = none := by
  intro other hother
  have grows := s.readFrom_grows q.room q.stack q.id q.held
  rcases List.mem_cons.mp hother with rfl | on
  · rcases evaluates_or s q with ⟨room, v, formula, evaluates⟩ | same
    · have still := evaluates.still_free (bodyOf formula)
      rw [evaluates.result_eq] at hcause ⊢
      rcases s.settle_cases v q.id (q.gather s room (bodyOf formula)).1
          (q.gather s room (bodyOf formula)).2 with ⟨_, _, left⟩ | ⟨value, ok, _⟩
      · rw [left, still]
      · rw [ok] at hcause
        cases hcause
    · rw [same]
      cases hw : q.held.values.get? q.id with
      | none => rfl
      | some w =>
          -- a value that is held would have been the answer
          obtain ⟨v, hv⟩ := Option.isSome_iff_exists.mp (hq.known hw)
          obtain ⟨room, hroom⟩ := Nat.exists_eq_succ_of_ne_zero (Nat.ne_of_gt hq.stacked.room_pos)
          rw [result, hroom, readFrom_of_held hv hw] at hcause
          cases hcause
  · exact grows.get?_eq_none on (hq.free other on)

end Proper

section Completed

variable {other : String} {value : Value}

/-- What reading the references of a formula adds one of the reads has added. -/
theorem exists_asked {room : Nat} {v : Variable} {formula : String}
    (evaluates : q.Evaluates s room v formula) {before after : Outline}
    (body : bodyOf formula = before ++ after)
    (free : (q.gather s room before).2.held.values.get? other = none)
    (held : (q.gather s room (bodyOf formula)).2.held.values.get? other = some value) :
    ∃ q', Asks s q q' ∧ q'.held.values.get? other = none ∧
      (q'.result s).2.values.get? other = some value := by
  induction after generalizing before with
  | nil =>
      rw [body, List.append_nil, free] at held
      cases held
  | cons p ps ih =>
      have shifted : bodyOf formula = (before ++ [p]) ++ ps := by rw [body, List.append_cons]
      cases hnext : (q.gather s room (before ++ [p])).2.held.values.get? other with
      | none => exact ih shifted hnext
      | some value' =>
          -- this piece has added it; what follows keeps it
          have later := fill_grows (q.id :: q.stack) (s.readFrom_grows room (q.id :: q.stack)) ps
            (q.gather s room (before ++ [p])).2
          have kept := later.keeps hnext
          rw [gather, shifted, Outline.fill_append] at held
          have same : value' = value := Option.some.inj (kept.symm.trans held)
          subst same
          rw [gather, Outline.fill_append, ← gather] at hnext
          rcases hgathered : (q.gather s room before).2 with ⟨left, failure⟩
          rw [hgathered] at free hnext
          cases p with
          | callee w => rw [Outline.fill, Outline.fill, free] at hnext; cases hnext
          | plain i => rw [Outline.fill, Outline.fill, free] at hnext; cases hnext
          | reference w =>
              dsimp only [Outline.fill] at hnext free
              cases hname : s.names.get? (String.ofList w) with
              | none => rw [lookUp_of_unknown hname, free] at hnext; cases hnext
              | some id =>
                  cases failure with
                  | some cause => rw [lookUp_of_failed rfl, free] at hnext; cases hnext
                  | none =>
                      refine ⟨_, .reference evaluates body hname hgathered, free, ?_⟩
                      rw [result]
                      rcases hresult : s.readFrom room (q.id :: q.stack) id left with
                        ⟨answer, held⟩
                      cases answer with
                      | error cause => rwa [lookUp_of_error hname rfl hresult] at hnext
                      | ok w => rwa [lookUp_of_ok hname rfl hresult] at hnext

/-- A value that reading adds is that of an evaluation that was completed. -/
theorem exists_completed (s : Sheet) (q : Visit) (free : q.held.values.get? other = none)
    (held : (q.result s).2.values.get? other = some value) :
    ∃ q', Within s q q' ∧ q'.id = other ∧ q'.Completes s value := by
  induction hroom : q.room using Nat.strongRecOn generalizing q with
  | ind room ih =>
      rcases evaluates_or s q with ⟨below, v, formula, evaluates⟩ | same
      · have whole := held
        rw [evaluates.result_eq] at held
        cases hgathered : (q.gather s below (bodyOf formula)).2.held.values.get? other with
        | some value' =>
            have kept := (evaluates.grows.keeps hgathered).symm.trans whole
            cases kept
            obtain ⟨q', asks, before, after⟩ :=
              exists_asked evaluates (List.nil_append _).symm free hgathered
            have less : q'.room < room := by
              cases asks with
              | reference evaluates' =>
                  rw [← hroom, evaluates'.hasRoom]
                  exact Nat.lt_succ_self _
            obtain ⟨q'', within, found⟩ := ih q'.room less q' before after rfl
            exact ⟨q'', .head asks within, found⟩
        | none =>
            -- the references have not added it, so it is the value of the formula
            rcases s.settle_cases v q.id (q.gather s below (bodyOf formula)).1
                (q.gather s below (bodyOf formula)).2 with ⟨_, _, left⟩ | ⟨value', ok, left⟩
            · rw [left, hgathered] at held
              cases held
            · rw [left, Table.get?_insert] at held
              split at held
              · rename_i here
                cases held
                rw [← evaluates.result_eq] at ok
                exact ⟨q, .refl, here, ⟨below, v, formula, evaluates⟩, ok⟩
              · rw [hgathered] at held
                cases held
      · rw [same, free] at held
        cases held

end Completed

end Visit

/-- `s'` is `s` with more values for what an id depends on, or itself, and another
memo. -/
structure AddsOnly (s s' : Sheet) (id : String) : Prop where
  rest : s' = s.withHeld s'.held
  kept : ∀ other value, s.values.get? other = some value → s'.values.get? other = some value
  added : ∀ other value, s.values.get? other = none → s'.values.get? other = some value →
    s.isDerived other = true ∧ Relation.ReflTransGen (Graph.Edge s.dependencies) id other

/-- **Reads only ever add values.**  Whatever cycles there are and whatever fails, a
read keeps every value and changes nothing but values and the memo.  What it adds are
the values of just those evaluations within it that were completed, all of variables
that the id depends on, or of itself.  If any read within it fails, it fails with the
same error, and none of those that were then being evaluated holds a value. -/
theorem Reaches.read_adds {allowed : Sheet → Operation → Prop} {e : Evaluator}
    (h : Reaches allowed (ofEvaluator e) s) (id : String) :
    s.AddsOnly (s.read id).2 id ∧
    (∀ other value, s.values.get? other = none →
      ((s.read id).2.values.get? other = some value ↔
        ∃ q, Visit.Within s (.outer s id) q ∧ q.id = other ∧ q.Completes s value)) ∧
    (∀ cause, (s.read id).1 = .error cause → (s.read id).2.values.get? id = none) ∧
    ∀ q cause, Visit.Within s (.outer s id) q → (q.result s).1 = .error cause →
      (s.read id).1 = .error cause ∧
        ∀ other ∈ q.id :: q.stack, (s.read id).2.values.get? other = none := by
  have hs := h.consistent
  have proper := Visit.Proper.outer hs id
  have answer : (s.read id).1 = ((Visit.outer s id).result s).1 := fst_read s id
  have left : (s.read id).2.values = ((Visit.outer s id).result s).2.values :=
    congrArg Held.values (held_read s id)
  have grows := s.read_grows id
  have failing : ∀ q cause, Visit.Within s (.outer s id) q → (q.result s).1 = .error cause →
      (s.read id).1 = .error cause ∧
        ∀ other ∈ q.id :: q.stack, (s.read id).2.values.get? other = none := by
    intro q cause within hcause
    obtain ⟨whole, same⟩ := within.failed hcause
    refine ⟨answer.trans whole, fun other on => ?_⟩
    rw [left, same]
    exact (proper.within within).free_of_failed hcause other on
  have completed : ∀ other value, s.values.get? other = none →
      (s.read id).2.values.get? other = some value →
        ∃ q, Visit.Within s (.outer s id) q ∧ q.id = other ∧ q.Completes s value := by
    intro other value free held
    rw [left] at held
    exact Visit.exists_completed s (.outer s id) free held
  refine ⟨⟨rfl, fun _ _ held => grows.keeps held, ?_⟩, ?_, ?_, failing⟩
  · intro other value free held
    obtain ⟨q, within, rfl, _⟩ := completed other value free held
    rcases grows.adds held with before | ⟨derived, _⟩
    · exact absurd before (by rw [Sheet.held, free]; simp)
    · rw [hs.edge_dependencies]
      exact ⟨derived, (proper.within within).reached⟩
  · intro other value free
    refine ⟨completed other value free, ?_⟩
    rintro ⟨q, within, rfl, done⟩
    rw [left]
    exact within.grows.keeps done.held
  · intro cause failed
    exact (failing (.outer s id) cause .refl (answer.symm.trans failed)).2 id List.mem_cons_self

/-- The flag and its negation; a gate that needs both the negation and itself, and
one that needs that.  Only the flag holds a value. -/
def knotSheet : Sheet :=
  ((((ofEvaluator plainEvaluator).apply (.register flag)).apply (.register opposite)).apply
    (.register (gate "knot" "opposite && knot"))).apply (.register (gate "above" "knot || flag"))

/-- The sheet with the knot is reached by operations. -/
theorem knotSheet_reached : Reaches (fun _ _ => True) (ofEvaluator plainEvaluator) knotSheet :=
  .step (.step (.step (.step .start trivial) trivial) trivial) trivial

/-- The read of the knot within one of the gate above it. -/
def knotVisit : Visit := ⟨4, ["above"], "knot", knotSheet.held⟩

/-- Reading the gate above reads the knot first, and evaluates it. -/
theorem asks_knotVisit : Visit.Asks knotSheet (.outer knotSheet "above") knotVisit ∧
    ∃ v, knotVisit.Evaluates knotSheet 3 v "opposite && knot" := by
  have formula : ∀ id f, (knotSheet.definitions.get? id).bind (·.formula) = some f →
      ∃ v, knotSheet.definitions.get? id = some v ∧ v.formula = some f :=
    fun _ _ => Option.bind_eq_some_iff.mp
  obtain ⟨v, hv, hformula⟩ := formula "above" "knot || flag" (by decide +kernel)
  obtain ⟨v', hv', hformula'⟩ := formula "knot" "opposite && knot" (by decide +kernel)
  have first : (Visit.outer knotSheet "above").Evaluates knotSheet 4 v "knot || flag" :=
    ⟨hv, hformula, rfl, nofun, rfl⟩
  have body : bodyOf "knot || flag" =
      [] ++ .reference "knot".toList :: (bodyOf "knot || flag").tail := by
    decide +kernel
  exact ⟨.reference first body rfl rfl, v', hv', hformula', rfl, by decide, rfl⟩

/-- Reading the gate above comes to the knot, which reads the negation and then
comes to itself.  All three reads fail with the cycle, and only the negation holds a
value more. -/
theorem read_adds_knotSheet :
    knotSheet.values.keys = ["flag"] ∧
    (knotSheet.read "above").2.values.keys = ["flag", "opposite"] ∧
    knotSheet.AddsOnly (knotSheet.read "above").2 "above" ∧
    (∃ value q, Visit.Within knotSheet (.outer knotSheet "above") q ∧ q.id = "opposite" ∧
      q.Completes knotSheet value) ∧
    ∃ q cause, Visit.Within knotSheet (.outer knotSheet "above") q ∧ q.id = "knot" ∧
      q.stack = ["knot", "above"] ∧ (q.result knotSheet).1 = .error cause ∧
      (knotSheet.read "above").1 = .error cause ∧
      (knotSheet.read "above").2.values.get? "knot" = none ∧
      (knotSheet.read "above").2.values.get? "above" = none := by
  obtain ⟨only, added, -, failing⟩ := Reaches.read_adds knotSheet_reached "above"
  refine ⟨by decide +kernel, by decide +kernel, only, ?_, ?_⟩
  · have held : ((knotSheet.read "above").2.values.get? "opposite").isSome = true := by
      decide +kernel
    obtain ⟨value, held⟩ := Option.isSome_iff_exists.mp held
    have free : knotSheet.values.get? "opposite" = none := rfl
    exact ⟨value, (added "opposite" value free).mp held⟩
  · obtain ⟨asked, v, evaluates⟩ := asks_knotVisit
    -- the negation is read, and then the knot again
    let before : Outline := (bodyOf "opposite && knot").dropLast
    have body : bodyOf "opposite && knot" = before ++ .reference "knot".toList :: [] := by
      decide +kernel
    have fine : (knotVisit.gather knotSheet 3 before).2.failure.isNone = true := by decide +kernel
    have asked' : Visit.Asks knotSheet knotVisit
        ⟨3, ["knot", "above"], "knot", (knotVisit.gather knotSheet 3 before).2.held⟩ := by
      refine .reference evaluates body rfl ?_
      rw [← Option.isNone_iff_eq_none.mp fine]
    have closed : ∃ cause, (Visit.result knotSheet
        ⟨3, ["knot", "above"], "knot", (knotVisit.gather knotSheet 3 before).2.held⟩).1 =
          .error cause :=
      ⟨_, congrArg Prod.fst (readFrom_of_on evaluates.definition evaluates.isFormula
        (evaluates.still_free before) List.mem_cons_self)⟩
    obtain ⟨cause, failed⟩ := closed
    have within : Visit.Within knotSheet (.outer knotSheet "above") _ :=
      .tail (.single asked) asked'
    obtain ⟨whole, none⟩ := failing _ cause within failed
    exact ⟨_, cause, within, rfl, rfl, failed, whole, none "knot" (by decide),
      none "above" (by decide)⟩

end Sheet

end FormulaSheet
