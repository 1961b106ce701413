import FormulaSheet.Proofs.Settled

/-!
# Operations keep sheets coherent

Every operation drops what its change may have made stale.  A change to one
variable drops what is reached from it along dependents, so what is left
refers to nothing that changed (`Sheet.Untouched`); a change of the evaluator
drops everything that was computed.

Two operations are different.  Restoring puts values in place of computed
ones, and registering an id under another name leaves values behind that were
computed through the old name; `Sheet.Ordinary` leaves both out.

* `Sheet.Coherent.apply` — an ordinary operation that makes no draw keeps a
  sheet coherent;
* `Sheet.Reaches.coherent` — so does a run of them.
-/

namespace FormulaSheet

namespace Setting

/-- The host's clock is not looked at when the setting has a time. -/
theorem suppliesAs_atClock {s : Setting} (timed : s.currentTime.isSome = true) (clock : Float) :
    (s.atClock clock).SuppliesAs s where
  time := rfl
  now := by
    obtain ⟨t, ht⟩ := Option.isSome_iff_exists.mp timed
    simp [Setting.now, atClock, ht]
  draw := rfl
  nan := rfl

/-- So it shows in no call. -/
theorem call_atClock {s : Setting} (timed : s.currentTime.isSome = true) (clock : Float)
    (room : Nat) : (s.atClock clock).call room = s.call room := by
  induction room with
  | zero => rfl
  | succ room ih =>
      rw [call, call, ih]
      congr 1
      funext name args
      have registry : (s.atClock clock).registry = s.registry := rfl
      rw [registry]
      cases s.registry.find? name with
      | none => rfl
      | some f => exact f.run_congr (suppliesAs_atClock timed clock) (s.call room) args

/-- A text is reduced by the calls that it makes. -/
theorem reduce_congr {s s' : Setting} (h : s'.call maxCallDepth = s.call maxCallDepth)
    (text : List Char) : s'.reduce text = s.reduce text := by
  have evaluate : s'.evaluate = s.evaluate := by
    funext scope e
    rw [Setting.evaluate, Setting.evaluate, h]
  have argument : s'.argument = s.argument := by
    funext segment
    unfold Setting.argument
    rw [evaluate]
  have one : s'.resolveOne = s.resolveOne := by
    funext text
    unfold Setting.resolveOne
    rw [argument, h]
  have resolve : ∀ room text, s'.resolveFrom room text = s.resolveFrom room text := by
    intro room
    induction room with
    | zero => exact fun text => rfl
    | succ room ih =>
        intro text
        unfold Setting.resolveFrom
        rw [one]
        congr 1
        funext next
        cases next with
        | none => rfl
        | some text => exact ih text
  have finish : s'.finish = s.finish := by
    funext text
    unfold Setting.finish
    rw [evaluate]
  unfold Setting.reduce Setting.resolve
  rw [resolve, finish]

/-- The host's clock does not show in what a text comes to, or in what is
remembered of it, when the setting has a time. -/
theorem conclude_atClock {s : Setting} (timed : s.currentTime.isSome = true) (clock : Float) :
    (s.atClock clock).conclude = s.conclude := by
  funext text m
  unfold conclude
  rw [reduce_congr (call_atClock timed clock maxCallDepth)]

/-- What a text comes to does not depend on the host's clock when the setting
has a time. -/
theorem Steady.atClock {s : Setting} (timed : s.currentTime.isSome = true) (clock : Float)
    {text : List Char} {outcome : Outcome} (h : s.Steady text outcome) :
    (s.atClock clock).Steady text outcome := by
  intro r
  rw [reduce_congr (call_atClock timed clock maxCallDepth)]
  exact h r

end Setting

namespace Sheet

/-- The operations that read, write and compute: no snapshot is restored, no
id is given another name, and the host's clock moves on only if it does not
show. -/
def Ordinary (s : Sheet) : Operation → Prop
  | .register v => ∀ s' previous, s.register v = .ok s' →
      s.definitions.get? v.id = some previous → previous.name = v.name
  | .restore _ => False
  | .wait _ => s.evaluator.setting.currentTime.isSome = true
  | _ => True

/-- A change of an id does not reach another. -/
def Untouched (s : Sheet) (id other : String) : Prop :=
  other ≠ id ∧ ¬ Graph.Path s.dependents id other

/-- What is untouched refers to what is untouched. -/
theorem Untouched.of_refersTo {s : Sheet} (hs : s.Consistent) {id a b : String}
    (h : s.Untouched id a) (href : s.RefersTo a b) : s.Untouched id b := by
  have edge : Graph.Edge s.dependents b a := hs.mem_next_dependents.mpr href
  refine ⟨?_, fun path => h.2 (path.tail edge)⟩
  intro eq
  subst eq
  exact h.2 (.single edge)

/-- Setting a value keeps the other values that the change does not reach. -/
theorem get?_values_set {s s' : Sheet} {id : String} {value : Value}
    (h : s.set id value = .ok s') (other : String) : s'.values.get? other =
      if other ∈ s.dependents.reached id then none
      else if id = other then some value else s.values.get? other := by
  obtain ⟨_, _, _, _, _, rfl⟩ := set_eq_ok.mp h
  have left := get?_values_invalidate { s with values := s.values.insert id value } id other
  rwa [Table.get?_insert] at left

namespace Coherent

variable {s s' : Sheet}

/-- A sheet in which only values were set and then dropped where the change
reaches them stays coherent. -/
theorem set {id : String} {value : Value} (hs : s.Consistent) (hc : s.Coherent s.held)
    (h : s.set id value = .ok s') : s'.Coherent s'.held := by
  obtain ⟨v, hv, source, _, _, rfl⟩ := set_eq_ok.mp h
  refine ⟨?_, hc.memo⟩
  intro other w derived hw
  obtain ⟨off, hw⟩ := get?_values_invalidate_eq_some hw
  have ne : other ≠ id := by
    intro eq
    subst eq
    simp [isDerived, Sheet.invalidate, hv, source] at derived
  dsimp only at hw
  rw [Table.get?_insert, if_neg (Ne.symm ne)] at hw
  refine (hc.values derived hw).frame _ _ (s.Untouched id) ?_ ?_ ?_ ?_ ⟨ne, off⟩
  · exact fun steady => steady
  · exact fun _ => rfl
  · intro a ha
    have kept := get?_values_invalidate_of_not_path
      (s := { s with values := s.values.insert id value }) ha.2
    dsimp only at kept
    rw [Table.get?_insert, if_neg (Ne.symm ha.1)] at kept
    exact kept
  · intro a va formula ha hva hformula name hname
    exact ⟨rfl, fun b hb => ha.of_refersTo hs ⟨va, formula, hva, hformula, name, hname, hb⟩⟩

/-- Registering a new id, or one under the name that it has, keeps a sheet
coherent. -/
theorem register {v : Variable} (hs : s.Consistent) (hc : s.Coherent s.held)
    (h : s.register v = .ok s')
    (samename : ∀ previous, s.definitions.get? v.id = some previous → previous.name = v.name) :
    s'.Coherent s'.held := by
  have hs' : s'.Consistent := hs.register h
  obtain ⟨free, rfl⟩ := register_eq_ok.mp h
  refine ⟨?_, hc.memo⟩
  have hname : ∀ name, v.name ≠ name →
      (s.file v).names.get? name = s.names.get? name := by
    intro name ne
    rw [get?_names_file, if_neg ne, if_neg]
    intro hany
    obtain ⟨previous, hprevious, eq⟩ := (Option.any_eq_true _ _).mp hany
    exact ne ((samename previous hprevious).symm.trans (by simpa using eq))
  intro other w derived hw
  obtain ⟨off, hw⟩ := get?_values_invalidate_eq_some hw
  have ne : other ≠ v.id := by
    intro eq
    subst eq
    have hdef : (s.file v).definitions.get? v.id = some v := by
      rw [get?_definitions_file, if_pos rfl]
    have derived' : v.isDerived = true := by
      simpa [isDerived, Sheet.invalidate, rebuild, hdef] using derived
    simp only [rebuild, get?_values_file, if_true, Variable.initial?, derived'] at hw
    cases hw
  have hdef : ∀ {a}, a ≠ v.id → (s.file v).definitions.get? a = s.definitions.get? a := by
    intro a ha
    rw [get?_definitions_file, if_neg (Ne.symm ha)]
  have derived' : s.isDerived other = true := by
    simpa [isDerived, Sheet.invalidate, rebuild, hdef ne] using derived
  simp only [rebuild, get?_values_file, if_neg (Ne.symm ne)] at hw
  refine (hc.values derived' hw).frame _ _
    ((((s.file v).rebuild).invalidate v.id).Untouched v.id)
    ?_ ?_ ?_ ?_ ⟨ne, off⟩
  · exact fun steady => steady
  · exact fun ha => hdef ha.1
  · intro a ha
    have kept := get?_values_invalidate_of_not_path (s := (s.file v).rebuild) ha.2
    have filed := get?_values_file s v a
    rw [if_neg (Ne.symm ha.1)] at filed
    exact kept.trans filed
  · intro a va formula ha hva hformula name hname'
    -- a formula that mentions the new name is reached from the new variable
    have other : v.name ≠ name := by
      intro eq
      subst eq
      refine (ha.of_refersTo hs' ⟨va, formula, ?_, hformula, v.name, hname', ?_⟩).1 rfl
      · exact (hdef ha.1).trans hva
      · exact (get?_names_file s v v.name).trans (if_pos rfl)
    refine ⟨hname name other, fun b hb => ?_⟩
    exact ha.of_refersTo hs' ⟨va, formula, (hdef ha.1).trans hva, hformula, name, hname',
      (hname name other).trans hb⟩

/-- Removing a variable keeps a sheet coherent. -/
theorem unregister (hs : s.Consistent) (hc : s.Coherent s.held) (id : String) :
    (s.unregister id).2.Coherent (s.unregister id).2.held := by
  unfold Sheet.unregister
  cases hv : s.definitions.get? id with
  | none => exact hc
  | some v =>
      refine ⟨?_, hc.memo⟩
      intro other w derived hw
      obtain ⟨off, hw⟩ := get?_values_invalidate_eq_some hw
      simp only [isDerived, rebuild, Sheet.invalidate, Table.get?_erase] at derived hw
      have ne : other ≠ id := by
        intro eq
        subst eq
        simp at derived
      rw [if_neg ne] at derived hw
      refine (hc.values derived hw).frame _ _ (s.Untouched id) ?_ ?_ ?_ ?_ ⟨ne, off⟩
      · exact fun steady => steady
      · intro a ha
        simp only [rebuild, Sheet.invalidate, Table.get?_erase, if_neg ha.1]
      · intro a ha
        have kept := get?_values_invalidate_of_not_path (s := { s with
          definitions := s.definitions.erase id
          names := s.names.erase v.name
          values := s.values.erase id }) ha.2
        dsimp only at kept
        rw [Table.get?_erase, if_neg ha.1] at kept
        exact kept
      · intro a va formula ha hva hformula name hname
        have refers : ∀ b, s.names.get? name = some b → s.Untouched id b :=
          fun b hb => ha.of_refersTo hs ⟨va, formula, hva, hformula, name, hname, hb⟩
        refine ⟨?_, refers⟩
        simp only [rebuild, Sheet.invalidate, Table.get?_erase]
        rw [if_neg]
        intro eq
        subst eq
        exact (refers id (hs.name_iff.mpr ⟨v, hv, rfl⟩)).1 rfl

/-- Under a changed evaluator nothing that was computed is held. -/
theorem withEvaluator {e : Evaluator} (hmemo : e.memo.Coherent e.setting) :
    (s.withEvaluator e).Coherent (s.withEvaluator e).held := by
  refine ⟨?_, hmemo⟩
  intro id w derived hw
  simp only [Sheet.held, Sheet.withEvaluator, clearDerived, Table.get?_filter] at hw
  have same : (s.withEvaluator e).isDerived id = isDerived { s with evaluator := e } id := rfl
  rw [same] at derived
  simp [derived] at hw

/-- Letting time pass keeps a sheet coherent that was given its time. -/
theorem atClock (hc : s.Coherent s.held) (timed : s.evaluator.setting.currentTime.isSome = true)
    (clock : Float) : (s.atClock clock).Coherent (s.atClock clock).held := by
  refine ⟨?_, fun held => (hc.memo held).atClock timed clock⟩
  intro id w derived hw
  refine (hc.values derived hw).frame _ _ (fun _ => True) ?_ ?_ ?_ ?_ trivial
  · exact fun steady => steady.atClock timed clock
  · exact fun _ => rfl
  · exact fun _ => rfl
  · exact fun _ _ _ _ _ => ⟨rfl, fun _ _ => trivial⟩

/-- A sheet that is coherent with what it is to hold is coherent when it holds it. -/
theorem withHeld {h : Held} (hc : s.Coherent h) : (s.withHeld h).Coherent (s.withHeld h).held := by
  refine ⟨?_, hc.memo⟩
  intro id w derived hw
  refine (hc.values derived hw).frame _ _ (fun _ => True) ?_ ?_ ?_ ?_ trivial
  · exact fun steady => steady
  · exact fun _ => rfl
  · exact fun _ => rfl
  · exact fun _ _ _ _ _ => ⟨rfl, fun _ _ => trivial⟩

/-- Reading without a draw keeps a sheet coherent. -/
theorem read (hc : s.Coherent s.held) (id : String) (quiet : (s.read id).2.drawn = s.drawn) :
    (s.read id).2.Coherent (s.read id).2.held :=
  (s.readFrom_quiet (s.size + 1) [] id s.held hc quiet).1.withHeld

/-- Concluding a text without a draw keeps a sheet coherent. -/
theorem conclude (hc : s.Coherent s.held) (text : List Char)
    (quiet : (s.evaluator.setting.conclude text s.evaluator.memo).2.random.drawn = s.drawn) :
    s.Coherent ⟨s.values, (s.evaluator.setting.conclude text s.evaluator.memo).2⟩ :=
  ⟨hc.values, (Setting.conclude_quiet text hc.memo quiet).2⟩

end Coherent

theorem drawn_set {s s' : Sheet} {id : String} {value : Value} (h : s.set id value = .ok s') :
    s'.drawn = s.drawn := by
  obtain ⟨_, _, _, _, _, rfl⟩ := set_eq_ok.mp h
  rfl

/-- No operation takes draws back. -/
theorem apply_le_drawn (s : Sheet) (op : Operation) : s.drawn ≤ (s.apply op).drawn := by
  have led := s.leads op
  generalize s.apply op = s' at led ⊢
  cases led with
  | nowhere => exact Nat.le_refl _
  | register h =>
      obtain ⟨_, rfl⟩ := register_eq_ok.mp h
      exact Nat.le_refl _
  | unregister id =>
      unfold Sheet.unregister
      cases s.definitions.get? id <;> exact Nat.le_refl _
  | set h => exact Nat.le_of_eq (drawn_set h).symm
  | read id => exact (s.read_grows id).le_drawn
  | readAll =>
      exact readAll_respects (R := fun s s' => s.drawn ≤ s'.drawn) (fun _ => Nat.le_refl _)
        Nat.le_trans (fun s id => (s.read_grows id).le_drawn) s
  | withEvaluator _ _ drawn => exact Nat.le_of_eq drawn.symm
  | conclude text => exact s.evaluator.setting.conclude_le_drawn text s.evaluator.memo
  | restore p => exact Nat.le_of_eq (congrArg (·.memo.random.drawn) (s.evaluator_restore p)).symm
  | wait clock => exact Nat.le_refl _

/-- What reads without a draw respect, reading every variable without a draw
respects. -/
theorem readAll_quietly {P : Sheet → Prop}
    (hread : ∀ s id, (s.read id).2.drawn = s.drawn → P s → P (s.read id).2) {s : Sheet} (hs : P s)
    (quiet : s.readAll.2.drawn = s.drawn) : P s.readAll.2 := by
  have step := readAll_respects (R := Quietly drawn fun s s' => P s → P s')
    (.refl fun _ h => h)
    (fun first second => first.trans second fun before behind h => behind (before h))
    (fun s id => ⟨(s.read_grows id).le_drawn, hread s id⟩) s
  exact step.quiet quiet hs

/-- **An ordinary operation that makes no draw keeps a sheet coherent.** -/
theorem Coherent.apply {s : Sheet} (hs : s.Consistent) (hc : s.Coherent s.held) {op : Operation}
    (hop : s.Ordinary op) (quiet : (s.apply op).drawn = s.drawn) :
    (s.apply op).Coherent (s.apply op).held := by
  have led := s.leads op
  generalize s.apply op = s' at led quiet ⊢
  cases led with
  | nowhere => exact hc
  | register h => exact hc.register hs h fun previous => hop _ previous h
  | unregister id => exact hc.unregister hs id
  | set h => exact hc.set hs h
  | read id => exact hc.read id quiet
  | readAll =>
      exact readAll_quietly (P := fun s => s.Coherent s.held) (fun _ id quiet h => h.read id quiet)
        hc quiet
  | withEvaluator _ forgets _ =>
      refine Coherent.withEvaluator ?_
      obtain rfl | empty := forgets
      · exact hc.memo
      · exact Memo.coherent_of_empty empty
  | conclude text => exact (hc.conclude text quiet).withHeld
  | restore p => exact hop.elim
  | wait clock => exact hc.atClock hop clock

/-- A run never takes draws back. -/
theorem Reaches.le_drawn {allowed : Sheet → Operation → Prop} {start s : Sheet}
    (h : Reaches allowed start s) : start.drawn ≤ s.drawn := by
  induction h with
  | start => exact Nat.le_refl _
  | step _ _ ih => exact Nat.le_trans ih (apply_le_drawn _ _)

/-- Ordinary operations without a draw keep the sheet coherent, if the results
that the evaluator remembers to begin with are what their texts come to. -/
theorem Reaches.coherent_of_memo {e : Evaluator} (he : e.memo.Coherent e.setting) {s : Sheet}
    (h : Reaches Ordinary (ofEvaluator e) s) (quiet : s.drawn = (ofEvaluator e).drawn) :
    s.Coherent s.held := by
  induction h with
  | start =>
      refine ⟨?_, he⟩
      intro id w _ hw
      cases hw
  | @step s op hreach hop ih =>
      have before := hreach.le_drawn
      have after := apply_le_drawn s op
      exact (ih (by omega)).apply hreach.consistent hop (by omega)

/-- **Every sheet is coherent that ordinary operations lead to from an empty
one without a draw.** -/
theorem Reaches.coherent {e : Evaluator} (hnew : e.memo.results = .empty) {s : Sheet}
    (h : Reaches Ordinary (ofEvaluator e) s) (quiet : s.drawn = (ofEvaluator e).drawn) :
    s.Coherent s.held :=
  h.coherent_of_memo (Memo.coherent_of_empty hnew) quiet

end Sheet

end FormulaSheet
