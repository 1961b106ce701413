import FormulaSheet.Proofs.Consistency

/-!
# Settled values

The value held for a derived variable is settled if it is what its formula
comes to, with no draw, once the values now shown stand in the place of its
references, and if these values are settled in turn.  A settled value lasts as
long as nothing that it was computed from changes.

* `Sheet.Settled` — the property, by recursion along references;
* `Sheet.Settled.frame` — it carries over to any sheet that agrees on a set of
  ids closed under references;
* `Sheet.Coherent` — every value held for a derived variable is settled, and
  every result remembered is what its text comes to;
* `Sheet.readFrom_quiet` — reading without a draw keeps coherence, and what it
  answers is settled.
-/

namespace FormulaSheet

namespace Sheet

/-- What a name stands for in a formula's text: the value of its variable,
null if none is held. -/
def shown (s : Sheet) (values : Table Value) (name : String) : Option Value :=
  (s.names.get? name).map fun id => (values.get? id).getD .null

/-- What is held for a variable is what would be computed for it now. -/
inductive Settled (s : Sheet) (values : Table Value) : String → Prop
  | source {id : String} {v : Variable} :
      s.definitions.get? id = some v → v.formula = none → Settled s values id
  | derived {id : String} {v : Variable} {formula : String} {w : Value} :
      s.definitions.get? id = some v → v.formula = some formula → values.get? id = some w →
      (∀ name ∈ (bodyOf formula).mentions, ∀ other, s.names.get? name = some other →
        Settled s values other) →
      s.evaluator.setting.Steady ((bodyOf formula).textWith (s.shown values)) (.ok w) →
      Settled s values id

/-- A settled value stays settled in a sheet that agrees with this one on a
set of ids closed under references. -/
theorem Settled.frame {s : Sheet} {values : Table Value} (s' : Sheet) (values' : Table Value)
    (K : String → Prop)
    (hsteady : ∀ {text outcome}, s.evaluator.setting.Steady text outcome →
      s'.evaluator.setting.Steady text outcome)
    (hdefinition : ∀ {id}, K id → s'.definitions.get? id = s.definitions.get? id)
    (hvalue : ∀ {id}, K id → values'.get? id = values.get? id)
    (hmention : ∀ {id v formula}, K id → s.definitions.get? id = some v →
      v.formula = some formula → ∀ name ∈ (bodyOf formula).mentions,
        s'.names.get? name = s.names.get? name ∧
          ∀ other, s.names.get? name = some other → K other)
    {id : String} (h : Settled s values id) (hK : K id) : Settled s' values' id := by
  induction h with
  | source hv hformula => exact .source (by rw [hdefinition hK, hv]) hformula
  | @derived id v formula w hv hformula hw _ hsteady' ih =>
      have mentioned := hmention hK hv hformula
      have text : (bodyOf formula).textWith (s'.shown values') =
          (bodyOf formula).textWith (s.shown values) := by
        apply Outline.textWith_congr
        intro name hname
        obtain ⟨same, kept⟩ := mentioned name hname
        unfold shown
        rw [same]
        cases hother : s.names.get? name with
        | none => rfl
        | some other => simp only [Option.map_some, hvalue (kept other hother)]
      refine .derived (by rw [hdefinition hK, hv]) hformula (by rw [hvalue hK, hw]) ?_ ?_
      · intro name hname other hother
        obtain ⟨same, kept⟩ := mentioned name hname
        rw [same] at hother
        exact ih name hname other hother (kept other hother)
      · rw [text]
        exact hsteady hsteady'

/-- What it means for a derived variable to be settled. -/
theorem Settled.of_formula {s : Sheet} {values : Table Value} {id formula : String} {v : Variable}
    (settled : Settled s values id) (hv : s.definitions.get? id = some v)
    (hformula : v.formula = some formula) : ∃ w, values.get? id = some w ∧
      (∀ name ∈ (bodyOf formula).mentions, ∀ other, s.names.get? name = some other →
        Settled s values other) ∧
      s.evaluator.setting.Steady ((bodyOf formula).textWith (s.shown values)) (.ok w) := by
  cases settled with
  | source hv' hformula' =>
      rw [hv] at hv'
      cases hv'
      rw [hformula] at hformula'
      cases hformula'
  | derived hv' hformula' hw hrefs steady =>
      rw [hv] at hv'
      cases hv'
      rw [hformula] at hformula'
      cases hformula'
      exact ⟨_, hw, hrefs, steady⟩

/-- Reading changes no settled value. -/
theorem Settled.get?_of_grows {s : Sheet} {stack : List String} {h h' : Held} {id : String}
    (settled : Settled s h.values id) (grows : Grows s stack h h') :
    h'.values.get? id = h.values.get? id := by
  cases settled with
  | source hv hformula => exact grows.get?_source (isDerived_of_source hv hformula)
  | derived _ _ hw _ _ => rw [grows.keeps hw, hw]

/-- What a settled value refers to is settled. -/
theorem Settled.of_refersTo {s : Sheet} {values : Table Value} {a b : String}
    (settled : Settled s values a) (href : s.RefersTo a b) : Settled s values b := by
  obtain ⟨v, formula, hv, hformula, name, hname, hb⟩ := href
  obtain ⟨_, _, hrefs, _⟩ := settled.of_formula hv hformula
  exact hrefs name hname b hb

/-- A settled value of a derived variable is held. -/
theorem Settled.isSome {s : Sheet} {values : Table Value} {id : String}
    (settled : Settled s values id) (derived : s.isDerived id = true) :
    (values.get? id).isSome = true := by
  cases settled with
  | source hv hformula =>
      rw [isDerived_of_source hv hformula] at derived
      cases derived
  | derived _ _ hw _ _ => rw [hw]; rfl

/-- What is settled stays settled as reading goes on. -/
theorem Settled.of_grows {s : Sheet} {stack : List String} {h h' : Held} {id : String}
    (settled : Settled s h.values id) (grows : Grows s stack h h') :
    Settled s h'.values id := by
  refine settled.frame s h'.values (Settled s h.values) (fun steady => steady) (fun _ => rfl)
    (fun hid => hid.get?_of_grows grows) ?_ settled
  intro id v formula hid hv hformula name hname
  exact ⟨rfl, fun other hother => hid.of_refersTo ⟨v, formula, hv, hformula, name, hname, hother⟩⟩

end Sheet

/-- Every result that a memo remembers is what its text comes to, from any
source of random numbers. -/
def Memo.Coherent (setting : Setting) (m : Memo) : Prop :=
  ∀ {key outcome}, m.results.get? key = some outcome → setting.Steady key.toList outcome

/-- A memo without results is coherent. -/
theorem Memo.coherent_of_empty {setting : Setting} {m : Memo} (h : m.results = .empty) :
    m.Coherent setting := by
  intro key outcome held
  rw [h] at held
  cases held

/-- Concluding without a draw keeps a memo coherent, and the outcome is what
the text comes to. -/
theorem Setting.conclude_quiet {s : Setting} (text : List Char) {m : Memo}
    (hm : m.Coherent s) (quiet : (s.conclude text m).2.random.drawn = m.random.drawn) :
    s.Steady text (s.conclude text m).1 ∧ (s.conclude text m).2.Coherent s := by
  cases hit : m.results.get? (String.ofList text) with
  | some outcome =>
      rw [conclude_of_some hit]
      have steady := hm hit
      rw [String.toList_ofList] at steady
      exact ⟨steady, hm⟩
  | none =>
      rw [conclude_of_none hit] at quiet ⊢
      have steady : s.Steady text (Run.from (s.reduce text) m.random).1 := steady_of_drawn quiet
      refine ⟨steady, ?_⟩
      intro key outcome held
      rw [Table.get?_insert] at held
      split at held
      · rename_i eq
        cases held
        rw [← eq, String.toList_ofList]
        exact steady
      · exact hm held

namespace Sheet

/-- Everything that is held is what would be computed now. -/
structure Coherent (s : Sheet) (h : Held) : Prop where
  values : ∀ {id w}, s.isDerived id = true → h.values.get? id = some w → Settled s h.values id
  memo : h.memo.Coherent s.evaluator.setting

/-- A value that is held is settled. -/
theorem Coherent.settled {s : Sheet} {h : Held} (hc : Coherent s h) {id : String} {v : Variable}
    {w : Value} (hv : s.definitions.get? id = some v) (hw : h.values.get? id = some w) :
    Settled s h.values id := by
  cases hformula : v.formula with
  | none => exact .source hv hformula
  | some formula => exact hc.values (isDerived_of_formula hv hformula) hw

/-- Without a draw a reader keeps coherence, and its answers are settled. -/
def Quiet (s : Sheet) (read : Reader) : Prop :=
  ∀ id h, Coherent s h → (read id h).2.memo.random.drawn = h.memo.random.drawn →
    Coherent s (read id h).2 ∧ ∀ w, (read id h).1 = .ok w →
      Settled s (read id h).2.values id ∧ ((read id h).2.values.get? id).getD .null = w

/-- After a failure nothing changes to the end. -/
theorem fill_of_failed {s : Sheet} {read : Reader} (o : Outline) {g : Gathering} {e : SheetError}
    (hg : g.failure = some e) : (o.fill (s.lookUp read) g).2 = g := by
  have step : ∀ name (g : Gathering), g.failure = some e → (s.lookUp read name g).2 = g := by
    intro name g hg
    rw [lookUp_of_failed hg]
  refine Outline.fill_respects (R := fun g g' : Gathering => g.failure = some e → g' = g)
    (fun _ _ => rfl) ?_ step o g hg
  intro f g h first second hf
  have eq := first hf
  subst eq
  exact second hf

/-- A failure is kept to the end. -/
theorem fill_failure {s : Sheet} {read : Reader} (o : Outline) {g : Gathering}
    (h : (o.fill (s.lookUp read) g).2.failure = none) : g.failure = none := by
  cases hg : g.failure with
  | none => rfl
  | some e =>
      rw [fill_of_failed o hg, hg] at h
      cases h

/-- A reference that was read is settled, and is replaced by what it shows. -/
theorem lookUp_quiet {s : Sheet} {read : Reader} (hread : Quiet s read) (name : String)
    {g : Gathering} (hg : Coherent s g.held)
    (quiet : (s.lookUp read name g).2.held.memo.random.drawn = g.held.memo.random.drawn) :
    Coherent s (s.lookUp read name g).2.held ∧
      ((s.lookUp read name g).2.failure = none →
        (s.lookUp read name g).1 = s.shown (s.lookUp read name g).2.held.values name ∧
        ∀ other, s.names.get? name = some other →
          Settled s (s.lookUp read name g).2.held.values other) := by
  cases hname : s.names.get? name with
  | none =>
      rw [lookUp_of_unknown hname]
      refine ⟨hg, fun _ => ⟨by simp [shown, hname], ?_⟩⟩
      intro other eq
      cases eq
  | some id =>
      cases hfailure : g.failure with
      | some e =>
          rw [lookUp_of_failed hfailure]
          refine ⟨hg, fun ok => ?_⟩
          rw [hfailure] at ok
          cases ok
      | none =>
          rcases hresult : read id g.held with ⟨result, held⟩
          have inner := hread id g.held hg
          rw [hresult] at inner
          cases result with
          | error e =>
              rw [lookUp_of_error hname hfailure hresult] at quiet ⊢
              refine ⟨(inner quiet).1, fun ok => ?_⟩
              cases ok
          | ok v =>
              rw [lookUp_of_ok hname hfailure hresult] at quiet ⊢
              obtain ⟨coherent, answered⟩ := inner quiet
              obtain ⟨settled, value⟩ := answered v rfl
              refine ⟨coherent, fun _ => ⟨?_, ?_⟩⟩
              · simp only [shown, hname, Option.map_some]
                rw [value]
              · intro other eq
                cases eq
                exact settled

/-- What reading the references of a formula leaves: if none failed, each is
settled, and the text has its value. -/
theorem fill_quiet {s : Sheet} {read : Reader} {stack : List String} (hread : Quiet s read)
    (hgrows : ∀ id h, Grows s stack h (read id h).2) (o : Outline) {g : Gathering}
    (hg : Coherent s g.held)
    (quiet : (o.fill (s.lookUp read) g).2.held.memo.random.drawn = g.held.memo.random.drawn) :
    Coherent s (o.fill (s.lookUp read) g).2.held ∧
      ((o.fill (s.lookUp read) g).2.failure = none →
        (o.fill (s.lookUp read) g).1 =
          o.textWith (s.shown (o.fill (s.lookUp read) g).2.held.values) ∧
        ∀ name ∈ o.mentions, ∀ other, s.names.get? name = some other →
          Settled s (o.fill (s.lookUp read) g).2.held.values other) := by
  induction o generalizing g with
  | nil =>
      refine ⟨hg, fun _ => ⟨rfl, ?_⟩⟩
      intro name eq
      cases eq
  | cons p ps ih =>
      cases p with
      | reference w =>
          -- neither the look-up nor the rest can have drawn
          have before := (lookUp_grows hgrows (String.ofList w) g).le_drawn
          have after := (fill_grows stack hgrows ps (s.lookUp read (String.ofList w) g).2).le_drawn
          have grows := fill_grows stack hgrows ps (s.lookUp read (String.ofList w) g).2
          have step : Outline.fill (s.lookUp read) (.reference w :: ps) g =
              (((s.lookUp read (String.ofList w) g).1.map Value.splice).getD w ++
                (Outline.fill (s.lookUp read) ps (s.lookUp read (String.ofList w) g).2).1,
                (Outline.fill (s.lookUp read) ps (s.lookUp read (String.ofList w) g).2).2) := rfl
          rw [step] at quiet ⊢
          dsimp only at quiet ⊢
          obtain ⟨middle, found⟩ := lookUp_quiet hread (String.ofList w) hg (by omega)
          obtain ⟨coherent, rest⟩ := ih middle (by omega)
          refine ⟨coherent, fun ok => ?_⟩
          obtain ⟨value, settled⟩ := found (fill_failure ps ok)
          obtain ⟨text, settleds⟩ := rest ok
          -- what the reference shows is not changed by the reads after it
          have same : s.shown (s.lookUp read (String.ofList w) g).2.held.values (String.ofList w) =
              s.shown (Outline.fill (s.lookUp read) ps
                (s.lookUp read (String.ofList w) g).2).2.held.values (String.ofList w) := by
            unfold shown
            cases hname : s.names.get? (String.ofList w) with
            | none => rfl
            | some other =>
                simp only [Option.map_some, (settled other hname).get?_of_grows grows]
          refine ⟨?_, ?_⟩
          · rw [value, same, text]
            rfl
          · intro name hname other hother
            rcases List.mem_cons.mp hname with rfl | hname
            · exact (settled other hother).of_grows grows
            · exact settleds name hname other hother
      | callee w =>
          obtain ⟨coherent, rest⟩ := ih hg quiet
          refine ⟨coherent, fun ok => ?_⟩
          obtain ⟨text, settled⟩ := rest ok
          exact ⟨congrArg (w ++ ·) text, settled⟩
      | plain i =>
          obtain ⟨coherent, rest⟩ := ih hg quiet
          refine ⟨coherent, fun ok => ?_⟩
          obtain ⟨text, settled⟩ := rest ok
          exact ⟨congrArg (i.text ++ ·) text, settled⟩

/-- Settling a formula without a draw keeps coherence, and a value that it
comes to is settled. -/
theorem settle_quiet {s : Sheet} {v : Variable} {id formula : String} {text : List Char}
    {g : Gathering} (hv : s.definitions.get? id = some v) (hformula : v.formula = some formula)
    (free : g.held.values.get? id = none) (hg : Coherent s g.held)
    (hgathered : g.failure = none → text = (bodyOf formula).textWith (s.shown g.held.values) ∧
      ∀ name ∈ (bodyOf formula).mentions, ∀ other, s.names.get? name = some other →
        Settled s g.held.values other)
    (quiet : (s.settle v id text g).2.memo.random.drawn = g.held.memo.random.drawn) :
    Coherent s (s.settle v id text g).2 ∧ ∀ w, (s.settle v id text g).1 = .ok w →
      Settled s (s.settle v id text g).2.values id ∧
        ((s.settle v id text g).2.values.get? id).getD .null = w := by
  have grows := settle_grows [] (v := v) text g (isDerived_of_formula hv hformula)
    List.not_mem_nil free
  rw [memo_settle] at quiet
  obtain ⟨steady, coherent⟩ := Setting.conclude_quiet text hg.memo quiet
  cases hfailure : g.failure with
  | some e =>
      rw [settle_of_failed hfailure]
      exact ⟨⟨hg.values, coherent⟩, by rintro w ⟨⟩⟩
  | none =>
      rcases houtcome : s.evaluator.setting.conclude text g.held.memo with ⟨outcome, m⟩
      rw [houtcome] at steady coherent
      cases outcome with
      | error e =>
          rw [settle_of_error hfailure houtcome]
          exact ⟨⟨hg.values, coherent⟩, by rintro w ⟨⟩⟩
      | ok value =>
          rw [settle_of_ok hfailure houtcome] at grows ⊢
          obtain ⟨htext, hrefs⟩ := hgathered hfailure
          have here : (g.held.values.insert id value).get? id = some value := by
            rw [Table.get?_insert, if_pos rfl]
          have settled : Settled s (g.held.values.insert id value) id := by
            have shows : (bodyOf formula).textWith (s.shown (g.held.values.insert id value)) =
                (bodyOf formula).textWith (s.shown g.held.values) := by
              apply Outline.textWith_congr
              intro name hname
              unfold shown
              cases hother : s.names.get? name with
              | none => rfl
              | some other =>
                  have same := (hrefs name hname other hother).get?_of_grows grows
                  simp only [Option.map_some]
                  rw [← same]
            refine .derived hv hformula here ?_ ?_
            · intro name hname other hother
              exact (hrefs name hname other hother).of_grows grows
            · rw [shows, ← htext]
              exact steady
          refine ⟨⟨?_, coherent⟩, ?_⟩
          · intro other w hderived hw
            by_cases hid : id = other
            · subst hid
              exact settled
            · dsimp only at hw
              rw [Table.get?_insert, if_neg hid] at hw
              exact (hg.values hderived hw).of_grows grows
          · intro w eq
            cases eq
            exact ⟨settled, by dsimp only; rw [here]; rfl⟩

/-- Reading without a draw keeps coherence, and what it answers is settled. -/
theorem readFrom_quiet (s : Sheet) (room : Nat) (stack : List String) :
    Quiet s (s.readFrom room stack) := by
  induction room generalizing stack with
  | zero =>
      intro id h hh _
      exact ⟨hh, by rintro w ⟨⟩⟩
  | succ room ih =>
      intro id h hh
      apply readFrom_cases (P := fun r => r.2.memo.random.drawn = h.memo.random.drawn →
        Coherent s r.2 ∧ ∀ w, r.1 = .ok w →
          Settled s r.2.values id ∧ (r.2.values.get? id).getD .null = w)
      case unknown =>
        intro _ _
        exact ⟨hh, by rintro w ⟨⟩⟩
      case held =>
        intro v w hv hw _
        refine ⟨hh, ?_⟩
        rintro w' ⟨⟩
        exact ⟨hh.settled hv hw, by rw [hw]; rfl⟩
      case source =>
        intro v hv hformula hw _
        refine ⟨hh, ?_⟩
        rintro w ⟨⟩
        exact ⟨.source hv hformula, by rw [hw]; rfl⟩
      case on =>
        intro v formula _ _ _ _ _
        exact ⟨hh, by rintro w ⟨⟩⟩
      case off =>
        intro v formula hv hformula hw off quiet
        have hgrows := fun other held => s.readFrom_grows room (id :: stack) other held
        have first := fill_grows (id :: stack) hgrows (bodyOf formula) ⟨h, none⟩
        have free := first.get?_eq_none List.mem_cons_self hw
        have second := settle_grows [] (v := v)
          ((bodyOf formula).fill (s.lookUp (s.readFrom room (id :: stack))) ⟨h, none⟩).1
          _ (isDerived_of_formula hv hformula) List.not_mem_nil free
        -- neither the references nor the formula itself can have drawn
        have le₁ := first.le_drawn
        have le₂ := second.le_drawn
        dsimp only at le₁
        obtain ⟨coherent, gathered⟩ := fill_quiet (ih (id :: stack)) hgrows (bodyOf formula)
          (g := ⟨h, none⟩) hh (by dsimp only; omega)
        exact settle_quiet hv hformula free coherent gathered (by omega)

end Sheet

end FormulaSheet
