import FormulaSheet.Proofs.Circular
import FormulaSheet.Proofs.Visits

/-!
# One stack for all reads

A read hands its stack down to those that it makes, and so cannot find it changed
afterwards; and it is given room for so many reads within one another.  Here all reads
within one use the same stack as they find it.  An id is put on it before its formula is
evaluated, and its last entry is taken off again however that ends.  Reads are followed to
some depth only, and a read with one that goes deeper has no answer there.

It has one at every depth beyond the number of derived variables, whatever cycles the
formulas form.  An id is put on the stack only if it is not there, has a formula and holds
no value, and while it is there no value is put in place for it; so the stack grows at most
to the number of derived variables.  That the stack is found again as it was has to be
known along with this, since a read goes on from what the reads before it have left.

* `Sheet.readOn` — reading on one stack, with a record of the reads;
* `ReadRecord.Chained` — what a read finds on the stack;
* `Sheet.Visit.asked` — the reads that a formula asks for, in order;
* `Sheet.Visit.substituteOn_eq` — making them on the shared stack;
* `Sheet.Visit.Proper.endsOn` — each of them ends, and leaves the stack as it was;
* `Sheet.Reaches.readOn_chained` — the result.
-/

namespace FormulaSheet

/-- A read that has ended: of an id, with what was on the stack and which values were
held when it began; its answer, and the stack that it left.  The outermost id comes first
on a stack. -/
structure ReadRecord where
  id : String
  stack : List String
  values : Table Value
  answer : Except SheetError Value
  left : List String

/-- What the reads within one read share: the stack, what is held, and the record of
those that have ended, the last first. -/
structure Progress where
  stack : List String
  held : Held
  record : List ReadRecord

/-- Reads a variable on the stack that is shared, if the read ends. -/
abbrev StackReader := String → Progress → Option (Except SheetError Value × Progress)

namespace Sheet

/-- Puts a variable on the stack, or reports the cycle that it closes. -/
def push (s : Sheet) (v : Variable) (stack : List String) : Except SheetError (List String) :=
  if stack.contains v.id then
    .error (.circularDependency ((stack.dropWhile (· != v.id)).map s.nameOf ++ [v.name]))
  else .ok (stack ++ [v.id])

/-- Takes the last entry of a variable off the stack. -/
def pop (v : Variable) (stack : List String) : List String := (stack.reverse.erase v.id).reverse

/-- The value of a reference.  Once a reference has failed none is read. -/
def lookUpOn (s : Sheet) (read : StackReader) (name : String) :
    StateT (Progress × Option SheetError) Option (Option Value) :=
  fun (p, failure) =>
    match s.names.get? name, failure with
    | some id, none => do
      match ← read id p with
      | (.ok v, p) => some (some v, p, none)
      | (.error e, p) => some (none, p, some e)
    | _, _ => some (none, p, failure)

/-- The answer of a read, in which others are made by `read`. -/
def answerOn (s : Sheet) (read : StackReader) : StackReader :=
  fun id p =>
    match s.definitions.get? id with
    | none => some (.error (.unknownVariable id), p)
    | some v =>
      match p.held.values.get? id, v.formula with
      | some value, _ => some (.ok value, p)
      | none, none => some (.ok .null, p)
      | none, some formula =>
        match s.push v p.stack with
        | .error e => some (.error e, p)
        | .ok stack => do
          let ((text, _), p, failure) ←
            ((bodyOf formula).substitute (s.lookUpOn read)).run ({ p with stack := stack }, none)
          let (answer, held) := s.settle v id text ⟨p.held, failure⟩
          -- taken off the stack that is found now, whatever the answer
          some (answer, { p with stack := pop v p.stack, held := held })

/-- Reads a variable and records the read, if reads are nested at most `depth` deep. -/
def readOn (s : Sheet) : (depth : Nat) → StackReader
  | 0, _, _ => none
  | depth + 1, id, p => do
    let (answer, p') ← s.answerOn (s.readOn depth) id p
    some (answer,
      { p' with record := ⟨id, p.stack, p.held.values, answer, p'.stack⟩ :: p'.record })

/-- The ids of the derived variables. -/
def derivedIds (s : Sheet) : List String := s.definitions.keys.filter s.isDerived

end Sheet

/-- What a read within one of `origin` finds on the stack: derived variables without a
value, each once.  They lead from `origin` to what is read, the formula of each referring
to the next. -/
structure ReadRecord.Chained (s : Sheet) (origin : String) (r : ReadRecord) : Prop where
  distinct : r.stack.Nodup
  derived : ∀ id ∈ r.stack, s.isDerived id = true
  free : ∀ id ∈ r.stack, r.values.get? id = none
  begins : (r.stack ++ [r.id]).head? = some origin
  linked : (r.stack ++ [r.id]).IsChain s.RefersTo
  length_le : r.stack.length ≤ s.derivedIds.length

namespace Sheet

variable {s : Sheet} {origin id : String}

/-- There are no more variables on a stack than are derived. -/
theorem Stacked.length_le_derivedIds {stack : List String} {room : Nat}
    (h : Stacked s stack room) : stack.length ≤ s.derivedIds.length := by
  refine h.nodup.length_le_of_subset fun other on => ?_
  have derived := h.derived other on
  exact List.mem_filter.mpr ⟨mem_keys_of_isDerived derived, derived⟩

section PushPop

variable {v : Variable} {below : List String}

/-- A variable that is on the stack closes the cycle of those above it. -/
theorem push_of_mem (hv : s.definitions.get? v.id = some v) (nodup : below.Nodup)
    (on : v.id ∈ below) : s.push v below.reverse =
      .error (.circularDependency (s.cyclePath below v.id)) := by
  obtain ⟨above, rest, rfl, off⟩ := List.eq_append_cons_of_mem on
  have clear : v.id ∉ rest := (List.nodup_cons.mp (List.nodup_append.mp nodup).2.1).1
  have cut : (above ++ v.id :: rest).reverse.dropWhile (· != v.id) = v.id :: above.reverse := by
    rw [List.reverse_append, List.reverse_cons, List.append_assoc,
      List.dropWhile_append_of_pos, List.singleton_append, List.dropWhile_cons_of_neg (by simp)]
    intro other hother
    have ne : other ≠ v.id := fun eq => clear (eq ▸ List.mem_reverse.mp hother)
    simpa using ne
  have name : s.nameOf v.id = v.name := by rw [nameOf, hv]
  rw [push, if_pos (by simp), cut, cyclePath_of_notMem off]
  simp [name]

theorem push_of_notMem (off : v.id ∉ below) :
    s.push v below.reverse = .ok (v.id :: below).reverse := by
  rw [push, if_neg (by simpa using off), List.reverse_cons]

theorem pop_reverse (v : Variable) (below : List String) :
    pop v (v.id :: below).reverse = below.reverse := by
  rw [pop, List.reverse_reverse, List.erase_cons_head]

end PushPop

namespace Visit

variable {q q' : Visit} {room : Nat} {stack : List String} {o before after : Outline}
  {g : Gathering} {v : Variable} {formula : String} {r : ReadRecord}

/-- A read as it is recorded where it leaves the stack as it was. -/
def recorded (s : Sheet) (q : Visit) : ReadRecord :=
  ⟨q.id, q.stack.reverse, q.held.values, (q.result s).1, q.stack.reverse⟩

section Chained

/-- The way on the stack of a read within one from outside. -/
theorem Within.descends (h : Within s (outer s origin) q) : Descends s origin q.id q.stack := by
  induction h with
  | refl => exact .start s origin
  | tail _ asks ih =>
      rw [asks.stack_eq]
      exact ih.push asks.off asks.refersTo

/-- It begins with what is read from outside. -/
theorem Within.begins (h : Within s (outer s origin) q) :
    (q.id :: q.stack).getLast? = some origin := by
  induction h with
  | refl => rfl
  | tail _ asks ih => rw [asks.stack_eq, List.getLast?_cons_cons, ih]

/-- **The stack of every visit within a read is a chain of derived variables.** -/
theorem Within.chained (hs : s.Consistent) (h : Within s (outer s origin) q) :
    (q.recorded s).Chained s origin := by
  have proper := (Proper.outer hs origin).within h
  have trail : (q.recorded s).stack ++ [(q.recorded s).id] = (q.id :: q.stack).reverse :=
    List.reverse_cons.symm
  constructor
  case distinct => exact List.nodup_reverse.mpr proper.stacked.nodup
  case derived => exact fun other on => proper.stacked.derived other (List.mem_reverse.mp on)
  case free => exact fun other on => proper.free other (List.mem_reverse.mp on)
  case begins => rw [trail, List.head?_reverse, h.begins]
  case linked => rw [trail, List.isChain_reverse]; exact h.descends.linked
  case length_le =>
    change q.stack.reverse.length ≤ _
    rw [List.length_reverse]
    exact proper.stacked.length_le_derivedIds

end Chained

section Asked

/-- The read that a name asks for: none if there is no such variable, or after a
failure. -/
def asks? (s : Sheet) (room : Nat) (stack : List String) (name : String) (g : Gathering) :
    Option Visit :=
  match s.names.get? name, g.failure with
  | some id, none => some ⟨room, stack, id, g.held⟩
  | _, _ => none

/-- The reads that the references in an outline ask for, in order. -/
def asked (s : Sheet) (room : Nat) (stack : List String) : Outline → Gathering → List Visit
  | [], _ => []
  | .reference w :: ps, g =>
    (asks? s room stack (String.ofList w) g).toList ++
      asked s room stack ps (s.lookUp (s.readFrom room stack) (String.ofList w) g).2
  | .callee _ :: ps, g => asked s room stack ps g
  | .plain _ :: ps, g => asked s room stack ps g

/-- A reference that is read is asked for. -/
theorem mem_asked {w : List Char} {other : String} {held : Held}
    (hname : s.names.get? (String.ofList w) = some other)
    (found : (before.fill (s.lookUp (s.readFrom room stack)) g).2 = ⟨held, none⟩) :
    ⟨room, stack, other, held⟩ ∈ asked s room stack (before ++ .reference w :: after) g := by
  induction before generalizing g with
  | nil =>
      obtain rfl : g = ⟨held, none⟩ := found
      simp [asked, asks?, hname]
  | cons p before ih =>
      cases p with
      | reference w => exact List.mem_append_right _ (ih found)
      | callee w => exact ih found
      | plain i => exact ih found

/-- What is asked for from some place of a formula on is a read that is made. -/
theorem Evaluates.asks_of_mem (evaluates : q.Evaluates s room v formula)
    (body : bodyOf formula = before ++ o)
    (h : q' ∈ asked s room (q.id :: q.stack) o (q.gather s room before).2) : Asks s q q' := by
  induction o generalizing before with
  | nil => cases h
  | cons p ps ih =>
      have shifted : bodyOf formula = (before ++ [p]) ++ ps := by rw [body, List.append_cons]
      have rest : q' ∈ asked s room (q.id :: q.stack) ps (q.gather s room (before ++ [p])).2 →
          Asks s q q' := ih shifted
      rw [gather, Outline.fill_append, ← gather] at rest
      cases p with
      | callee w => exact rest h
      | plain i => exact rest h
      | reference w =>
          rcases List.mem_append.mp h with here | later
          · rw [Option.mem_toList, asks?] at here
            split at here
            · rename_i other hname hfailure
              cases here
              exact .reference evaluates body hname (by rw [← hfailure])
            · cases here
          · exact rest later

/-- What is asked on the stack is what the visit asks for. -/
theorem Evaluates.mem_asked_iff (evaluates : q.Evaluates s room v formula) :
    q' ∈ asked s room (q.id :: q.stack) (bodyOf formula) ⟨q.held, none⟩ ↔ Asks s q q' := by
  refine ⟨evaluates.asks_of_mem (List.nil_append _).symm, fun h => ?_⟩
  cases h with
  | @reference room' v' formula' other before after w held evaluates' body hname found =>
      -- a read evaluates one formula, and leaves one room
      cases Nat.succ.inj (evaluates.hasRoom.symm.trans evaluates'.hasRoom)
      cases Option.some.inj (evaluates.definition.symm.trans evaluates'.definition)
      cases Option.some.inj (evaluates.isFormula.symm.trans evaluates'.isFormula)
      rw [body]
      exact mem_asked hname found

end Asked

section EndsOn

/-- A read within another is recorded so. -/
def Records (s : Sheet) (q : Visit) (r : ReadRecord) : Prop :=
  ∃ q', Within s q q' ∧ r = q'.recorded s

/-- A read is recorded with those within each that it makes. -/
theorem records_iff : q.Records s r ↔ r = q.recorded s ∨ ∃ q', Asks s q q' ∧ q'.Records s r := by
  constructor
  · rintro ⟨q'', within, rfl⟩
    rcases Relation.ReflTransGen.cases_head within with rfl | ⟨q', asks, later⟩
    · exact .inl rfl
    · exact .inr ⟨q', asks, q'', later, rfl⟩
  · rintro (rfl | ⟨q', asks, q'', later, rfl⟩)
    · exact ⟨q, .refl, rfl⟩
    · exact ⟨q'', .head asks later, rfl⟩

/-- On the shared stack a read ends as it does by itself, followed to any depth at which
the derived variables give out.  It leaves the stack as it was, and adds to the record just
the reads within it. -/
def EndsOn (s : Sheet) (q : Visit) : Prop :=
  ∀ record, ∃ record',
    (∀ depth, s.derivedIds.length < q.stack.length + depth →
      s.readOn depth q.id ⟨q.stack.reverse, q.held, record⟩ =
        some ((q.result s).1, ⟨q.stack.reverse, (q.result s).2, record'⟩)) ∧
    ∀ r, r ∈ record' ↔ r ∈ record ∨ q.Records s r

/-- A reference is looked up on the shared stack as it is by itself. -/
theorem lookUpOn_eq {name : String} (ends : ∀ q ∈ asks? s room stack name g, q.EndsOn s)
    (record : List ReadRecord) :
    ∃ record',
      (∀ depth, s.derivedIds.length < stack.length + depth →
        s.lookUpOn (s.readOn depth) name (⟨stack.reverse, g.held, record⟩, g.failure) =
          some ((s.lookUp (s.readFrom room stack) name g).1,
            ⟨stack.reverse, (s.lookUp (s.readFrom room stack) name g).2.held, record'⟩,
            (s.lookUp (s.readFrom room stack) name g).2.failure)) ∧
      ∀ r, r ∈ record' ↔ r ∈ record ∨ ∃ q ∈ asks? s room stack name g, q.Records s r := by
  rcases g with ⟨held, failure⟩
  cases hname : s.names.get? name with
  | none =>
      refine ⟨record, fun depth _ => ?_, by simp [asks?, hname]⟩
      unfold lookUpOn
      rw [hname, lookUp_of_unknown hname]
  | some id =>
      cases failure with
      | some cause =>
          refine ⟨record, fun depth _ => ?_, by simp [asks?]⟩
          unfold lookUpOn
          rw [hname, lookUp_of_failed rfl]
      | none =>
          have asking : asks? s room stack name ⟨held, none⟩ = some ⟨room, stack, id, held⟩ := by
            rw [asks?, hname]
          rw [asking] at ends ⊢
          obtain ⟨record', ended, recorded⟩ := ends _ rfl record
          refine ⟨record', fun depth deep => ?_, fun r => by simpa using recorded r⟩
          have ended := ended depth deep
          rcases hresult : s.readFrom room stack id held with ⟨answer, left⟩
          rw [result, hresult] at ended
          unfold lookUpOn
          rw [hname]
          cases answer with
          | ok value =>
              rw [lookUp_of_ok hname rfl hresult]
              dsimp only at ended ⊢
              rw [ended]
              rfl
          | error cause =>
              rw [lookUp_of_error hname rfl hresult]
              dsimp only at ended ⊢
              rw [ended]
              rfl

/-- The references of an outline are read on the shared stack as they are by
themselves. -/
theorem substituteOn_eq (ends : ∀ q ∈ asked s room stack o g, q.EndsOn s)
    (out : List Char) (names : List String) (record : List ReadRecord) :
    ∃ names' record',
      (∀ depth, s.derivedIds.length < stack.length + depth →
        (Outline.substituteFrom (s.lookUpOn (s.readOn depth)) out names o).run
            (⟨stack.reverse, g.held, record⟩, g.failure) =
          some ((out.reverse ++ (o.fill (s.lookUp (s.readFrom room stack)) g).1, names'),
            ⟨stack.reverse, (o.fill (s.lookUp (s.readFrom room stack)) g).2.held, record'⟩,
            (o.fill (s.lookUp (s.readFrom room stack)) g).2.failure)) ∧
      ∀ r, r ∈ record' ↔ r ∈ record ∨ ∃ q ∈ asked s room stack o g, q.Records s r := by
  induction o generalizing g out names record with
  | nil =>
      refine ⟨names.reverse, record, fun depth _ => ?_, by simp [asked]⟩
      rw [Outline.fill, List.append_nil]
      rfl
  | cons p ps ih =>
      cases p with
      | callee w =>
          obtain ⟨names', record', filled, recorded⟩ := ih ends (w.reverseAux out) names record
          refine ⟨names', record', fun depth deep => ?_, recorded⟩
          rw [Outline.substituteFrom, filled depth deep]
          simp [Outline.fill, List.reverseAux_eq]
      | plain i =>
          obtain ⟨names', record', filled, recorded⟩ :=
            ih ends (i.text.reverseAux out) names record
          refine ⟨names', record', fun depth deep => ?_, recorded⟩
          rw [Outline.substituteFrom, filled depth deep]
          simp [Outline.fill, List.reverseAux_eq]
      | reference w =>
          rw [asked] at ends ⊢
          rw [List.forall_mem_append] at ends
          obtain ⟨middle, found, first⟩ :=
            lookUpOn_eq (fun q hq => ends.1 q (Option.mem_toList.mpr hq)) record
          obtain ⟨names', record', filled, later⟩ := ih ends.2 _ _ middle
          refine ⟨names', record', fun depth deep => ?_, fun r => ?_⟩
          · rw [Outline.substituteFrom_reference (found depth deep), filled depth deep]
            simp [Outline.fill, List.reverseAux_eq]
          · rw [later, first]
            simp only [List.mem_append, Option.mem_toList, Option.mem_def, or_and_right,
              exists_or, or_assoc]

/-- A read that evaluates no formula has its answer at once. -/
theorem Proper.answerOn_of_idle (hs : s.Consistent) (hq : q.Proper s origin)
    (idle : ∀ room v formula, ¬ q.Evaluates s room v formula) (read : StackReader)
    (record : List ReadRecord) : s.answerOn read q.id ⟨q.stack.reverse, q.held, record⟩ =
      some ((q.result s).1, ⟨q.stack.reverse, (q.result s).2, record⟩) := by
  obtain ⟨room, hroom⟩ := Nat.exists_eq_succ_of_ne_zero (Nat.ne_of_gt hq.stacked.room_pos)
  rw [result, hroom]
  unfold answerOn
  cases hv : s.definitions.get? q.id with
  | none => rw [readFrom_of_unknown hv]
  | some v =>
      dsimp only
      cases hw : q.held.values.get? q.id with
      | some w => rw [readFrom_of_held hv hw]
      | none =>
          cases hformula : v.formula with
          | none =>
              rw [readFrom_of_source hv hformula, hw]
              rfl
          | some formula =>
              have on : q.id ∈ q.stack := by
                by_contra off
                exact idle room v formula ⟨hv, hformula, hw, off, hroom⟩
              have filed := hs.id_eq hv
              rw [readFrom_of_on hv hformula hw on]
              rw [← filed] at hv on
              rw [push_of_mem hv hq.stacked.nodup on, filed]

/-- On the shared stack a read has the answer that it has by itself, and adds to the record
just what the reads record that it makes. -/
def AnswersOn (s : Sheet) (q : Visit) : Prop :=
  ∀ record, ∃ record',
    (∀ depth, s.derivedIds.length < q.stack.length + 1 + depth →
      s.answerOn (s.readOn depth) q.id ⟨q.stack.reverse, q.held, record⟩ =
        some ((q.result s).1, ⟨q.stack.reverse, (q.result s).2, record'⟩)) ∧
    ∀ r, r ∈ record' ↔ r ∈ record ∨ ∃ q', Asks s q q' ∧ q'.Records s r

/-- A formula is evaluated on the shared stack as it is by itself, if the reads end that
it asks for; each goes on from what the one before has left. -/
theorem Evaluates.answersOn (hs : s.Consistent) (evaluates : q.Evaluates s room v formula)
    (ends : ∀ q', Asks s q q' → q'.EndsOn s) : q.AnswersOn s := by
  intro record
  obtain ⟨names, record', filled, recorded⟩ :=
    substituteOn_eq (fun q' hq' => ends q' (evaluates.mem_asked_iff.mp hq')) [] [] record
  refine ⟨record', fun depth deep => ?_, fun r => ?_⟩
  · have filled := filled depth deep
    have filed := hs.id_eq evaluates.definition
    have pushed : s.push v q.stack.reverse = .ok (q.id :: q.stack).reverse := by
      rw [← filed]
      exact push_of_notMem (filed ▸ evaluates.off)
    have popped : pop v (q.id :: q.stack).reverse = q.stack.reverse := by
      rw [← filed, pop_reverse]
    dsimp only at filled
    unfold answerOn Outline.substitute
    rw [evaluates.definition]
    dsimp only
    rw [evaluates.free, evaluates.isFormula, pushed]
    dsimp only
    rw [filled, Option.bind_eq_bind, Option.bind_some]
    dsimp only
    rw [popped, evaluates.result_eq]
    rfl
  · simp only [recorded, evaluates.mem_asked_iff]

theorem Proper.answersOn (hs : s.Consistent) (hq : q.Proper s origin)
    (ends : ∀ q', Asks s q q' → q'.EndsOn s) : q.AnswersOn s := by
  by_cases evaluates : ∃ room v formula, q.Evaluates s room v formula
  · obtain ⟨_, _, _, evaluates⟩ := evaluates
    exact evaluates.answersOn hs ends
  · intro record
    refine ⟨record, fun depth _ => hq.answerOn_of_idle hs ?_ _ record, fun r => ⟨.inl, ?_⟩⟩
    · exact fun room v formula h => evaluates ⟨room, v, formula, h⟩
    · rintro (before | ⟨q', asks, _⟩)
      · exact before
      · cases asks with
        | reference h => exact absurd ⟨_, _, _, h⟩ evaluates

/-- Every read within one from outside ends.  The induction is on the room that is left
for ids not yet on the stack, which an evaluation takes one from. -/
theorem Proper.endsOn (hs : s.Consistent) (hq : q.Proper s origin) : q.EndsOn s := by
  induction hroom : q.room generalizing q with
  | zero => exact absurd hroom (Nat.ne_of_gt hq.stacked.room_pos)
  | succ room ih =>
      intro record
      have ends : ∀ q', Asks s q q' → q'.EndsOn s := by
        intro q' asks
        refine ih (hq.asks asks) ?_
        cases asks with
        | reference evaluates => exact Nat.succ.inj (evaluates.hasRoom.symm.trans hroom)
      obtain ⟨record', answer, recorded⟩ := hq.answersOn hs ends record
      refine ⟨q.recorded s :: record', fun depth deep => ?_, fun r => ?_⟩
      · cases depth with
        | zero =>
            -- the stack holds no more ids than are derived
            have bound := hq.stacked.length_le_derivedIds
            omega
        | succ depth =>
            rw [readOn, answer depth (by omega)]
            rfl
      · rw [List.mem_cons, recorded, records_iff]
        exact or_left_comm

end EndsOn

end Visit

/-- **The stack bounds every read.**  In every sheet that operations lead to from an empty
one, whatever cycles its formulas form, a read on one shared stack ends at every depth
beyond the number of derived variables.  It has the answer and the effects of a read from
outside, and leaves the stack empty again.  Those recorded are just the reads within it.
Each finds on the stack derived variables that hold no value, each once, of which every one
refers to the next and the last to what is read, so that there are no more of them than
derived variables; and whether it succeeds or fails, it leaves the stack as it was. -/
theorem Reaches.readOn_chained {allowed : Sheet → Operation → Prop} {e : Evaluator}
    (h : Reaches allowed (ofEvaluator e) s) (id : String) :
    ∃ record,
      (∀ depth, s.derivedIds.length < depth → s.readOn depth id ⟨[], s.held, []⟩ =
        some ((s.read id).1, ⟨[], (s.read id).2.held, record⟩)) ∧
      (∀ r, r ∈ record ↔ ∃ q, Visit.Within s (.outer s id) q ∧ r = q.recorded s) ∧
      ∀ r ∈ record, r.Chained s id ∧ r.left = r.stack := by
  have hs := h.consistent
  obtain ⟨record, ended, recorded⟩ := (Visit.Proper.outer hs id).endsOn hs []
  have exactly : ∀ r, r ∈ record ↔ ∃ q, Visit.Within s (.outer s id) q ∧ r = q.recorded s := by
    intro r
    rw [recorded, or_iff_right List.not_mem_nil]
    exact Iff.rfl
  refine ⟨record, fun depth deep => ?_, exactly, ?_⟩
  · rw [fst_read, held_read]
    exact ended depth (Nat.lt_add_left 0 deep)
  · intro r hr
    obtain ⟨q, within, rfl⟩ := (exactly r).mp hr
    exact ⟨within.chained hs, rfl⟩

/-- Reading the gate above comes to the knot, which reads the negation and then itself.
The one of these reads succeeds and the other fails, and both find the gate and the knot
on the stack and leave them there. -/
theorem readOn_chained_knotSheet :
    knotSheet.derivedIds = ["above", "knot", "opposite"] ∧
    ∃ record, knotSheet.readOn 4 "above" ⟨[], knotSheet.held, []⟩ =
        some ((knotSheet.read "above").1, ⟨[], (knotSheet.read "above").2.held, record⟩) ∧
      ∀ id succeeds, (id, succeeds) ∈ [("opposite", true), ("knot", false)] →
        ∃ r ∈ record, r.id = id ∧ r.answer.toBool = succeeds ∧ r.stack = ["above", "knot"] ∧
          r.Chained knotSheet "above" ∧ r.left = ["above", "knot"] := by
  obtain ⟨record, ended, exactly, each⟩ := Reaches.readOn_chained knotSheet_reached "above"
  have derived : knotSheet.derivedIds = ["above", "knot", "opposite"] := by decide +kernel
  refine ⟨derived, record, ended 4 (by rw [derived]; decide), ?_⟩
  obtain ⟨asked, v, evaluates⟩ := asks_knotVisit
  have answers : (Visit.asked knotSheet 3 ["knot", "above"] (bodyOf "opposite && knot")
      ⟨knotSheet.held, none⟩).map (fun q => (q.id, (q.result knotSheet).1.toBool)) =
        [("opposite", true), ("knot", false)] := by
    decide +kernel
  intro id succeeds listed
  rw [← answers] at listed
  obtain ⟨q, hq, eq⟩ := List.mem_map.mp listed
  cases eq
  have asks := evaluates.mem_asked_iff.mp hq
  have recorded := (exactly _).mpr ⟨q, .tail (.single asked) asks, rfl⟩
  have stack : (q.recorded knotSheet).stack = ["above", "knot"] :=
    congrArg List.reverse asks.stack_eq
  obtain ⟨chained, left⟩ := each _ recorded
  exact ⟨_, recorded, rfl, rfl, stack, chained, left.trans stack⟩

end Sheet

end FormulaSheet
