import FormulaSheet.Proofs.Grounding
import FormulaSheet.Proofs.Transparency

/-!
# What a variable reads as

A read hands one store and one stack through a recursion inside the
substitution of text, stops reading at the first failure and evaluates all the
same.  None of this shows.  A variable from which no cycle is reached reads as
a plain equation says: a source as what it holds, a derived variable as the
first error among what its formula refers to, or else as what the formula
comes to when every name stands for what its variable reads as.

The equation is about reads from outside, each from the sheet as it is.  Those
inside a read begin later: with other values held by then, with ids on the
stack, with less room.  The two have the same answer, since

* what is at the bottom of the stack makes no difference to a read that does not
  lead there (`Sheet.readFrom_append`), and
* the store that a quiet read has reached mirrors that of the sheet
  (`Sheet.Follows`).

`Sheet.Reaches.read_equation` is the result.
-/

namespace FormulaSheet

/-- The error of a result that is one. -/
def SheetError.of? : Except SheetError Value → Option SheetError
  | .error e => some e
  | .ok _ => none

namespace Sheet

/-- What a name stands for in a formula: what its variable reads as, if there
is one and it has a value. -/
def bound (s : Sheet) (name : String) : Option Value := (s.readByName name).1.toOption

/-- What the variable of an id reads as, by what the variables read as that it
depends on.  The formula is evaluated anew. -/
def equation (s : Sheet) (id : String) : Except SheetError Value :=
  match s.definitions.get? id with
  | none => .error (.unknownVariable id)
  | some v =>
    match v.formula with
    | none => .ok ((s.values.get? id).getD .null)
    | some formula =>
      match (s.dependenciesOf id).findSome? fun other => SheetError.of? (s.read other).1 with
      | some e => .error e
      | none =>
        (s.evaluator.anew.evaluateFrom s.bound formula).1.outcome.mapError (.evaluation v.name)

variable {s : Sheet} {id : String}

section Unfold

/-- The error of the variable of a name, if there is one and it has an error. -/
def failing (s : Sheet) (name : String) : Option SheetError :=
  (s.names.get? name).bind fun id => SheetError.of? (s.read id).1

/-- A registered name is bound to what its variable reads as. -/
theorem bound_of_get?_names {name : String} (h : s.names.get? name = some id) :
    s.bound name = (s.read id).1.toOption := by
  rw [bound, readByName, h]

theorem bound_of_unknown {name : String} (h : s.names.get? name = none) : s.bound name = none := by
  rw [bound, readByName, h]
  rfl

variable {v : Variable} {formula : String}

/-- What a formula depends on are the variables of the names that it refers to. -/
theorem Consistent.dependenciesOf_eq (hs : s.Consistent)
    (hv : s.definitions.get? id = some v) (hformula : v.formula = some formula) :
    s.dependenciesOf id = FormulaSheet.dependenciesOf s.names formula := by
  rw [Sheet.dependenciesOf, Graph.next, hs.dependencies, get?_dependencies_rebuild, hv]
  simp [hformula]

/-- The first error among what a formula depends on is the first among what
its body mentions. -/
theorem Consistent.findSome?_dependenciesOf (hs : s.Consistent)
    (hv : s.definitions.get? id = some v) (hformula : v.formula = some formula) :
    (s.dependenciesOf id).findSome? (fun other => SheetError.of? (s.read other).1) =
      (bodyOf formula).mentions.findSome? s.failing := by
  have filtered : ∀ names : List String,
      (names.filterMap s.names.get?).findSome? (fun other => SheetError.of? (s.read other).1) =
        names.findSome? s.failing := by
    intro names
    induction names with
    | nil => rfl
    | cons name names ih =>
        rw [List.findSome?_cons, failing, List.filterMap_cons]
        cases s.names.get? name with
        | none => exact ih
        | some other =>
            dsimp only [Option.bind_some]
            rw [List.findSome?_cons, ih]
  rw [hs.dependenciesOf_eq hv hformula, FormulaSheet.dependenciesOf, Outline.dependencies, filtered,
    Outline.findSome?_references, ← Outline.mentions_formulaBody]
  rfl

/-- The equation of a formula that depends on something that fails. -/
theorem Consistent.equation_of_failing (hs : s.Consistent)
    (hv : s.definitions.get? id = some v) (hformula : v.formula = some formula) {e : SheetError}
    (failed : (bodyOf formula).mentions.findSome? s.failing = some e) :
    s.equation id = .error e := by
  rw [← hs.findSome?_dependenciesOf hv hformula] at failed
  simp only [equation, hv, hformula, failed]

/-- The equation of a formula that comes to an outcome without a draw. -/
theorem Consistent.equation_of_steady (hs : s.Consistent)
    (hv : s.definitions.get? id = some v) (hformula : v.formula = some formula)
    (ok : (bodyOf formula).mentions.findSome? s.failing = none) {outcome : Outcome}
    (steady : s.evaluator.setting.Steady ((bodyOf formula).textWith s.bound) outcome) :
    s.equation id = outcome.mapError (.evaluation v.name) := by
  rw [← hs.findSome?_dependenciesOf hv hformula] at ok
  simp only [equation, hv, hformula, ok]
  rw [Evaluator.outcome_evaluateFrom_anew steady]

end Unfold

section Grounded

/-- A substitution depends only on the reads of what is mentioned. -/
theorem fill_congr {read read' : Reader} {o : Outline}
    (h : ∀ name ∈ o.mentions, ∀ other, s.names.get? name = some other → read other = read' other)
    (g : Gathering) : o.fill (s.lookUp read) g = o.fill (s.lookUp read') g := by
  induction o generalizing g with
  | nil => rfl
  | cons p ps ih =>
      cases p with
      | reference w =>
          have first : s.lookUp read (String.ofList w) = s.lookUp read' (String.ofList w) := by
            funext g
            cases hname : s.names.get? (String.ofList w) with
            | none => rw [lookUp_of_unknown hname, lookUp_of_unknown hname]
            | some other =>
                cases hfailure : g.failure with
                | some e => rw [lookUp_of_failed hfailure, lookUp_of_failed hfailure]
                | none =>
                    unfold lookUp
                    rw [hname, hfailure]
                    dsimp only
                    rw [h _ List.mem_cons_self other hname]
          have rest := ih fun name hname => h name (List.mem_cons_of_mem _ hname)
          simp only [Outline.fill, first, rest]
      | callee w => simp only [Outline.fill, ih h]
      | plain i => simp only [Outline.fill, ih h]

/-- What is grounded does not need itself. -/
theorem Consistent.acyclic_of_grounded (hs : s.Consistent)
    (grounded : s.dependencies.Grounded id) : ¬ Relation.TransGen s.RefersTo id id := by
  rw [← hs.edge_dependencies]
  exact grounded.not_path_self

/-- The cycle that an id closes is made of what is above it on the stack. -/
theorem cyclePath_append {top : List String} (on : id ∈ top) (bottom : List String) :
    s.cyclePath (top ++ bottom) id = s.cyclePath top id := by
  obtain ⟨above, below, rfl, off⟩ := List.eq_append_cons_of_mem on
  rw [List.append_assoc, List.cons_append, cyclePath_of_notMem off, cyclePath_of_notMem off]

/-- What is at the bottom of the stack makes no difference to a read that does not
lead there. -/
theorem readFrom_append {bottom : List String} {room room' : Nat} {top : List String}
    (hstack : Stacked s (top ++ bottom) room) (htop : Stacked s top room')
    (clear : ∀ below ∈ bottom, ¬ Relation.ReflTransGen s.RefersTo id below) :
    s.readFrom room (top ++ bottom) id = s.readFrom room' top id := by
  induction room generalizing room' top id with
  | zero => exact absurd hstack.room_pos (Nat.lt_irrefl 0)
  | succ room ih =>
      obtain ⟨room', rfl⟩ := Nat.exists_eq_succ_of_ne_zero (Nat.ne_of_gt htop.room_pos)
      funext h
      cases hv : s.definitions.get? id with
      | none => rw [readFrom_of_unknown hv, readFrom_of_unknown hv]
      | some v =>
          cases hformula : v.formula with
          | none => rw [readFrom_of_source hv hformula, readFrom_of_source hv hformula]
          | some formula =>
              cases hw : h.values.get? id with
              | some w => rw [readFrom_of_held hv hw, readFrom_of_held hv hw]
              | none =>
                  have derived := isDerived_of_formula hv hformula
                  by_cases on : id ∈ top
                  · rw [readFrom_of_on hv hformula hw (List.mem_append_left _ on),
                      readFrom_of_on hv hformula hw on, cyclePath_append on]
                  · have off : id ∉ top ++ bottom := by
                      rw [List.mem_append]
                      rintro (above | below)
                      · exact on above
                      · exact clear id below .refl
                    have same : ∀ name ∈ (bodyOf formula).mentions, ∀ other,
                        s.names.get? name = some other →
                          s.readFrom room (id :: (top ++ bottom)) other =
                            s.readFrom room' (id :: top) other := by
                      intro name hname other hother
                      refine ih (hstack.push derived off) (htop.push derived on) ?_
                      intro below hbelow path
                      exact clear below hbelow
                        (.head ⟨v, formula, hv, hformula, name, hname, hother⟩ path)
                    rw [readFrom_of_off hv hformula hw off, readFrom_of_off hv hformula hw on,
                      fill_congr same]

/-- While a variable is evaluated that does not need itself, what it refers to reads
as it does from outside. -/
theorem readFrom_of_refersTo (acyclic : ¬ Relation.TransGen s.RefersTo id id) {other : String}
    (href : s.RefersTo id other) :
    s.readFrom s.size [id] other = s.readFrom (s.size + 1) [] other := by
  change s.readFrom s.size ([] ++ [id]) other = s.readFrom (s.size + 1) [] other
  refine readFrom_append ((Stacked.start s).push href.isDerived List.not_mem_nil) (.start s) ?_
  exact href.clear_push acyclic (by simp)

end Grounded

section Follows

/-- A store that reading has reached, from the sheet as it is, without a
draw. -/
structure Follows (s : Sheet) (h : Held) : Prop where
  coherent : Coherent s h
  grows : Grows s [] s.held h
  random : h.memo.random = s.held.memo.random

namespace Follows

variable {h : Held}

theorem start (hc : s.Coherent s.held) : s.Follows s.held := ⟨hc, .refl s [] s.held, rfl⟩

theorem readFrom (hf : s.Follows h) {room : Nat} {stack : List String}
    (quiet : (s.readFrom room stack id h).2.memo.random.drawn = h.memo.random.drawn) :
    s.Follows (s.readFrom room stack id h).2 where
  coherent := (s.readFrom_quiet room stack id h hf.coherent quiet).1
  grows := hf.grows.trans (s.readFrom_grows room stack id h).of_nil
  random := (s.readFrom_random room stack id h quiet).trans hf.random

/-- Such a store mirrors that of the sheet. -/
theorem mirrors (hc : s.Coherent s.held) (hf : s.Follows h) : Mirrors s h s.held where
  values := by
    intro id
    cases before : s.held.values.get? id with
    | some w => exact .inl (hf.grows.keeps before).symm
    | none =>
        cases after : h.values.get? id with
        | none => exact .inl rfl
        | some w =>
            rcases hf.grows.adds after with held | ⟨derived, _⟩
            · rw [before] at held
              cases held
            · exact .inr ⟨rfl, derived, hf.coherent.values derived after⟩
  memo := Memo.Coherent.mirrors hf.coherent.memo hc.memo hf.random.symm

/-- From such a store a read from outside has the answer that it has from the
sheet. -/
theorem fst_readFrom (hc : s.Coherent s.held) (hf : s.Follows h) :
    (s.readFrom (s.size + 1) [] id h).1 = (s.read id).1 := by
  rw [fst_read]
  exact (readFrom_mirrors (.start s) id h s.held (by simp) (hf.mirrors hc)).1.symm

end Follows

/-- What reading the references of a formula leaves without a draw: the
failure is the first that they have by themselves, and if there is none the
text has what they read as. -/
theorem fill_follows {read : Reader} {stack : List String} {o : Outline}
    (hgrows : ∀ id h, Grows s stack h (read id h).2)
    (hread : ∀ name ∈ o.mentions, ∀ other, s.names.get? name = some other → ∀ h, s.Follows h →
      (read other h).1 = (s.read other).1 ∧
        ((read other h).2.memo.random.drawn = h.memo.random.drawn → s.Follows (read other h).2))
    {g : Gathering} (hg : s.Follows g.held) (hfailure : g.failure = none)
    (quiet : (o.fill (s.lookUp read) g).2.held.memo.random.drawn = g.held.memo.random.drawn) :
    s.Follows (o.fill (s.lookUp read) g).2.held ∧
      (o.fill (s.lookUp read) g).2.failure = o.mentions.findSome? s.failing ∧
      ((o.fill (s.lookUp read) g).2.failure = none →
        (o.fill (s.lookUp read) g).1 = o.textWith s.bound) := by
  induction o generalizing g with
  | nil => exact ⟨hg, hfailure, fun _ => rfl⟩
  | cons p ps ih =>
      cases p with
      | reference w =>
          have later := fun name hname => hread name (List.mem_cons_of_mem _ hname)
          have mentions : Outline.mentions (.reference w :: ps) =
              String.ofList w :: Outline.mentions ps := rfl
          rw [mentions, List.findSome?_cons]
          cases hname : s.names.get? (String.ofList w) with
          | none =>
              have unread : s.failing (String.ofList w) = none := by rw [failing, hname]; rfl
              simp only [Outline.fill, lookUp_of_unknown hname] at quiet ⊢
              obtain ⟨left, failure, text⟩ := ih later hg hfailure quiet
              refine ⟨left, by rw [unread]; exact failure, fun ok => ?_⟩
              rw [Outline.textWith, bound_of_unknown hname, text ok]
          | some other =>
              obtain ⟨answer, follows⟩ := hread _ List.mem_cons_self other hname g.held hg
              have before := (hgrows other g.held).le_drawn
              rcases hresult : read other g.held with ⟨result, held⟩
              rw [hresult] at answer follows before
              dsimp only at answer follows before
              cases result with
              | error e =>
                  have failed : s.failing (String.ofList w) = some e := by
                    rw [failing, hname, Option.bind_some, ← answer]
                    rfl
                  simp only [Outline.fill, lookUp_of_error hname hfailure hresult] at quiet ⊢
                  rw [fill_of_failed ps rfl] at quiet ⊢
                  rw [failed]
                  refine ⟨follows quiet, rfl, fun ok => ?_⟩
                  cases ok
              | ok value =>
                  have fine : s.failing (String.ofList w) = none := by
                    rw [failing, hname, Option.bind_some, ← answer]
                    rfl
                  simp only [Outline.fill, lookUp_of_ok hname hfailure hresult] at quiet ⊢
                  have after := (fill_grows stack hgrows ps ⟨held, none⟩).le_drawn
                  dsimp only at after
                  obtain ⟨left, failure, text⟩ :=
                    ih later (g := ⟨held, none⟩) (follows (by omega)) rfl (by dsimp only; omega)
                  refine ⟨left, by rw [fine]; exact failure, fun ok => ?_⟩
                  rw [Outline.textWith, bound_of_get?_names hname, ← answer, text ok]
                  rfl
      | callee w =>
          obtain ⟨left, failure, text⟩ := ih hread hg hfailure quiet
          exact ⟨left, failure, fun ok => congrArg (w ++ ·) (text ok)⟩
      | plain i =>
          obtain ⟨left, failure, text⟩ := ih hread hg hfailure quiet
          exact ⟨left, failure, fun ok => congrArg (i.text ++ ·) (text ok)⟩

end Follows

/-- What is settled reads as it shows. -/
theorem Settled.fst_read (settled : Settled s s.values id) :
    (s.read id).1 = .ok ((s.values.get? id).getD .null) := by
  rw [Sheet.fst_read]
  cases settled with
  | source hv hformula => rw [readFrom_of_source hv hformula, held]
  | derived hv _ hw _ _ =>
      rw [readFrom_of_held (h := s.held) hv hw, hw]
      rfl

/-- A held value that is settled is what the equation says. -/
theorem Settled.equation_eq (hs : s.Consistent) {v : Variable} {formula : String} {w : Value}
    (settled : Settled s s.values id) (hv : s.definitions.get? id = some v)
    (hformula : v.formula = some formula) (hw : s.values.get? id = some w) :
    s.equation id = .ok w := by
  obtain ⟨w', hw', hrefs, steady⟩ := settled.of_formula hv hformula
  rw [hw] at hw'
  cases hw'
  have fine : (bodyOf formula).mentions.findSome? s.failing = none := by
    rw [List.findSome?_eq_none_iff]
    intro name hname
    unfold failing
    cases hother : s.names.get? name with
    | none => rfl
    | some other =>
        rw [Option.bind_some, (hrefs name hname other hother).fst_read]
        rfl
  have text : (bodyOf formula).textWith s.bound =
      (bodyOf formula).textWith (s.shown s.values) := by
    apply Outline.textWith_congr
    intro name hname
    unfold shown
    cases hother : s.names.get? name with
    | none => exact bound_of_unknown hother
    | some other =>
        rw [bound_of_get?_names hother, (hrefs name hname other hother).fst_read]
        rfl
  rw [← text] at steady
  rw [hs.equation_of_steady hv hformula fine steady]
  rfl

/-- What a formula comes to once its references were read is what the equation
says. -/
theorem Consistent.settle_equation (hs : s.Consistent) {v : Variable} {formula : String}
    (hv : s.definitions.get? id = some v) (hformula : v.formula = some formula)
    {text : List Char} {g : Gathering} (hg : g.held.memo.Coherent s.evaluator.setting)
    (failure : g.failure = (bodyOf formula).mentions.findSome? s.failing)
    (htext : g.failure = none → text = (bodyOf formula).textWith s.bound)
    (quiet : (s.evaluator.setting.conclude text g.held.memo).2.random.drawn =
      g.held.memo.random.drawn) : (s.settle v id text g).1 = s.equation id := by
  cases hfailure : g.failure with
  | some e =>
      rw [hfailure] at failure
      rw [settle_of_failed hfailure, hs.equation_of_failing hv hformula failure.symm]
  | none =>
      obtain ⟨steady, _⟩ := Setting.conclude_quiet text hg quiet
      rcases houtcome : s.evaluator.setting.conclude text g.held.memo with ⟨outcome, m⟩
      rw [houtcome, htext hfailure] at steady
      rw [hfailure] at failure
      rw [hs.equation_of_steady hv hformula failure.symm steady]
      cases outcome with
      | error cause =>
          rw [settle_of_error hfailure houtcome]
          rfl
      | ok w =>
          rw [settle_of_ok hfailure houtcome]
          rfl

/-- In a coherent sheet a formula that is evaluated without a draw comes to
what the equation says. -/
theorem Coherent.fst_read_of_formula (hc : s.Coherent s.held) (hs : s.Consistent)
    (grounded : s.dependencies.Grounded id) {v : Variable} {formula : String}
    (hv : s.definitions.get? id = some v) (hformula : v.formula = some formula)
    (hw : s.values.get? id = none) (quiet : (s.read id).2.drawn = s.drawn) :
    (s.read id).1 = s.equation id := by
  have hgrows := fun other h => s.readFrom_grows s.size [id] other h
  have hread : ∀ name ∈ (bodyOf formula).mentions, ∀ other, s.names.get? name = some other →
      ∀ h, s.Follows h → (s.readFrom s.size [id] other h).1 = (s.read other).1 ∧
        ((s.readFrom s.size [id] other h).2.memo.random.drawn = h.memo.random.drawn →
          s.Follows (s.readFrom s.size [id] other h).2) := by
    intro name hname other hother h hf
    refine ⟨?_, hf.readFrom⟩
    rw [readFrom_of_refersTo (hs.acyclic_of_grounded grounded)
      ⟨v, formula, hv, hformula, name, hname, hother⟩]
    exact hf.fst_readFrom hc
  change (s.read id).2.held.memo.random.drawn = s.held.memo.random.drawn at quiet
  rw [held_read, readFrom_of_off (h := s.held) hv hformula hw List.not_mem_nil,
    memo_settle] at quiet
  rw [fst_read, readFrom_of_off (h := s.held) hv hformula hw List.not_mem_nil]
  have filled := fill_follows (g := ⟨s.held, none⟩) hgrows hread (.start hc) rfl
  have before := (fill_grows [id] hgrows (bodyOf formula) ⟨s.held, none⟩).le_drawn
  generalize (bodyOf formula).fill (s.lookUp (s.readFrom s.size [id])) ⟨s.held, none⟩ = result
    at quiet filled before ⊢
  obtain ⟨text, g⟩ := result
  -- neither the references nor the formula itself have drawn
  have after := s.evaluator.setting.conclude_le_drawn text g.held.memo
  dsimp only at quiet filled before ⊢
  obtain ⟨follows, failure, reads⟩ := filled (by omega)
  exact hs.settle_equation hv hformula follows.coherent.memo failure reads (by omega)

/-- In a coherent sheet a read without a draw from what is grounded follows
the equation. -/
theorem Coherent.fst_read_equation (hc : s.Coherent s.held) (hs : s.Consistent)
    (grounded : s.dependencies.Grounded id) (quiet : (s.read id).2.drawn = s.drawn) :
    (s.read id).1 = s.equation id := by
  cases hv : s.definitions.get? id with
  | none => rw [fst_read, readFrom_of_unknown hv, equation, hv]
  | some v =>
      cases hformula : v.formula with
      | none =>
          rw [Settled.fst_read (.source hv hformula), equation, hv]
          dsimp only
          rw [hformula]
      | some formula =>
          cases hw : s.values.get? id with
          | some w =>
              have settled := hc.settled hv hw
              rw [settled.fst_read, settled.equation_eq hs hv hformula hw, hw]
              rfl
          | none => exact hc.fst_read_of_formula hs grounded hv hformula hw quiet

/-- **Reads follow the equation.**  In every sheet that ordinary operations
lead to from an empty one, a read of a variable from which no cycle is reached
has the answer that the equation gives, as long as no random number has been
drawn by then. -/
theorem Reaches.read_equation {e : Evaluator} (hnew : e.memo.results = .empty)
    (h : Reaches Ordinary (ofEvaluator e) s) (acyclic : ¬ s.dependencies.ReachesCycle id)
    (quiet : (s.read id).2.drawn = (ofEvaluator e).drawn) : (s.read id).1 = s.equation id := by
  have before := h.le_drawn
  have after := (s.read_grows id).le_drawn
  change s.drawn ≤ (s.read id).2.drawn at after
  exact (h.coherent hnew (by omega)).fst_read_equation h.consistent (Graph.grounded_iff.mpr acyclic)
    (by omega)

/-- The flag, its negation, which was read, a gate that calls a function that
is not there, and one that refers to all of them. -/
def faultSheet : Sheet :=
  (flagSheet.apply (.register (gate "fault" "NOPE(flag)"))).apply
    (.register (gate "either" "flag || fault || opposite"))

theorem faultSheet_reached : Reaches Ordinary (ofEvaluator plainEvaluator) faultSheet := by
  have unknown : ∀ {s : Sheet} {v : Variable}, s.definitions.contains v.id = false →
      s.Ordinary (.register v) := by
    intro s v absent s' previous _ hprevious
    simp [Table.contains, hprevious] at absent
  exact .step (.step flagSheet_reached (unknown (by decide +kernel)))
    (unknown (by decide +kernel))

/-- The negation reads as the outcome of its formula, though it is held; the
gate that refers to all reads as the error of the one that fails. -/
theorem read_equation_faultSheet :
    (faultSheet.read "opposite").1 = faultSheet.equation "opposite" ∧
    (faultSheet.read "opposite").1.isOk = true ∧
    (faultSheet.read "either").1 = faultSheet.equation "either" ∧
    ((faultSheet.dependenciesOf "either").map fun id => (faultSheet.read id).1.isOk) =
      [true, false, true] := by
  have acyclic : ∀ {id}, faultSheet.dependencies.cycleFrom? id = none →
      ¬ faultSheet.dependencies.ReachesCycle id :=
    fun none => (Graph.grounded_of_cycleFrom? none).not_reachesCycle
  exact ⟨Reaches.read_equation rfl faultSheet_reached (acyclic (by decide +kernel))
      (by decide +kernel), by decide +kernel,
    Reaches.read_equation rfl faultSheet_reached (acyclic (by decide +kernel))
      (by decide +kernel), by decide +kernel⟩

end Sheet

end FormulaSheet
