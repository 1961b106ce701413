import FormulaSheet.Proofs.Coherence

/-!
# Reading is as good as computing anew

A coherent sheet answers every read as it would if everything computed were
forgotten first.  The read may itself draw random numbers, so the two reads
are followed side by side: at every point the store of the one *mirrors* that
of the other, that is, it lacks nothing but settled values and results that
are what their texts come to.

Where the sheet holds a settled value, the forgetful read computes it again;
it finds the same value and does not disturb the mirroring
(`Sheet.readFrom_settled`).  Elsewhere both do the same
(`Sheet.readFrom_mirrors`).

* `Sheet.Coherent.fst_read_eq` — a coherent sheet;
* `Sheet.Reaches.read_forget` — a sheet that ordinary operations lead to
  without a draw.
-/

namespace FormulaSheet

/-- What a memo remembers of a steady text is what the text comes to. -/
def Memo.Sound (setting : Setting) (m : Memo) : Prop :=
  ∀ key outcome outcome', setting.Steady key.toList outcome →
    m.results.get? key = some outcome' → outcome' = outcome

/-- Two memos with the same source of random numbers that differ in steady
texts only. -/
structure Memo.Mirrors (setting : Setting) (m₁ m₂ : Memo) : Prop where
  random : m₂.random = m₁.random
  results : ∀ key, (∀ outcome, ¬ setting.Steady key.toList outcome) →
    m₂.results.get? key = m₁.results.get? key
  sound₁ : m₁.Sound setting
  sound₂ : m₂.Sound setting

namespace Setting

variable {s : Setting}

/-- A text is steady with one outcome at most. -/
theorem Steady.unique {text : List Char} {outcome outcome' : Outcome} (h : s.Steady text outcome)
    (h' : s.Steady text outcome') : outcome' = outcome := by
  have same := (h ⟨none, 0⟩).symm.trans (h' ⟨none, 0⟩)
  exact (Prod.mk.inj same).1.symm

/-- Concluding a steady text has its outcome, and touches nothing else. -/
theorem conclude_steady {m : Memo} (hm : m.Sound s) {text : List Char} {outcome : Outcome}
    (steady : s.Steady text outcome) :
    (s.conclude text m).1 = outcome ∧ (s.conclude text m).2.random = m.random ∧
      ∀ key, (∀ outcome, ¬ s.Steady key.toList outcome) →
        (s.conclude text m).2.results.get? key = m.results.get? key := by
  have here : s.Steady (String.ofList text).toList outcome := by
    rw [String.toList_ofList]
    exact steady
  cases hit : m.results.get? (String.ofList text) with
  | some outcome' =>
      rw [conclude_of_some hit]
      exact ⟨hm _ _ _ here hit, rfl, fun _ _ => rfl⟩
  | none =>
      rw [conclude_of_none hit, steady m.random]
      refine ⟨rfl, rfl, ?_⟩
      intro key unsteady
      rw [Table.get?_insert, if_neg]
      intro eq
      subst eq
      exact unsteady outcome here

end Setting

namespace Memo

variable {s : Setting} {m₁ m₂ : Memo}

/-- Whatever text is concluded, what is remembered of steady texts stays
right. -/
theorem Sound.conclude {m : Memo} (hm : m.Sound s) (text : List Char) :
    (s.conclude text m).2.Sound s := by
  cases hit : m.results.get? (String.ofList text) with
  | some outcome =>
      rw [Setting.conclude_of_some hit]
      exact hm
  | none =>
      rw [Setting.conclude_of_none hit]
      intro key o o' steady held
      rw [Table.get?_insert] at held
      split at held
      · rename_i eq
        cases held
        rw [← eq, String.toList_ofList] at steady
        exact steady.outcome_eq m.random
      · exact hm _ _ _ steady held

theorem Coherent.sound {m : Memo} (hm : m.Coherent s) : m.Sound s := by
  intro key outcome outcome' steady held
  exact steady.unique (hm held)

/-- A coherent memo does not remember a text that is not steady. -/
theorem Coherent.get?_eq_none {m : Memo} (hm : m.Coherent s) {key : String}
    (unsteady : ∀ outcome, ¬ s.Steady key.toList outcome) : m.results.get? key = none := by
  cases held : m.results.get? key with
  | none => rfl
  | some outcome => exact absurd (hm held) (unsteady outcome)

/-- Coherent memos with the same source of random numbers mirror each other. -/
theorem Coherent.mirrors (hm₁ : m₁.Coherent s) (hm₂ : m₂.Coherent s)
    (random : m₂.random = m₁.random) : Mirrors s m₁ m₂ where
  random := random
  results := by
    intro key unsteady
    rw [Coherent.get?_eq_none hm₁ unsteady, Coherent.get?_eq_none hm₂ unsteady]
  sound₁ := Coherent.sound hm₁
  sound₂ := Coherent.sound hm₂

namespace Mirrors

/-- Concluding a steady text on one side keeps the mirroring. -/
theorem conclude_right (h : Mirrors s m₁ m₂) {text : List Char} {outcome : Outcome}
    (steady : s.Steady text outcome) :
    (s.conclude text m₂).1 = outcome ∧ Mirrors s m₁ (s.conclude text m₂).2 := by
  obtain ⟨same, random, results⟩ := Setting.conclude_steady h.sound₂ steady
  refine ⟨same, random.trans h.random, ?_, h.sound₁, h.sound₂.conclude text⟩
  intro key unsteady
  rw [results key unsteady, h.results key unsteady]

/-- Concluding a text on both sides has the same outcome. -/
theorem conclude (h : Mirrors s m₁ m₂) (text : List Char) :
    (s.conclude text m₂).1 = (s.conclude text m₁).1 ∧
      Mirrors s (s.conclude text m₁).2 (s.conclude text m₂).2 := by
  have sound₁ := h.sound₁.conclude text
  have sound₂ := h.sound₂.conclude text
  by_cases steady : ∃ outcome, s.Steady text outcome
  · obtain ⟨outcome, steady⟩ := steady
    obtain ⟨same₁, random₁, results₁⟩ := Setting.conclude_steady h.sound₁ steady
    obtain ⟨same₂, random₂, results₂⟩ := Setting.conclude_steady h.sound₂ steady
    refine ⟨same₂.trans same₁.symm, ?_, ?_, sound₁, sound₂⟩
    · rw [random₁, random₂, h.random]
    · intro key unsteady
      rw [results₁ key unsteady, results₂ key unsteady, h.results key unsteady]
  · -- an unsteady text is remembered on both sides or on neither
    have agree := h.results (String.ofList text) (by
      intro outcome
      rw [String.toList_ofList]
      exact fun here => steady ⟨outcome, here⟩)
    cases hit : m₁.results.get? (String.ofList text) with
    | some outcome =>
        rw [Setting.conclude_of_some hit, Setting.conclude_of_some (agree.trans hit)]
        exact ⟨rfl, h⟩
    | none =>
        rw [Setting.conclude_of_none hit] at sound₁ ⊢
        rw [Setting.conclude_of_none (agree.trans hit)] at sound₂ ⊢
        rw [h.random] at sound₂ ⊢
        refine ⟨rfl, rfl, ?_, sound₁, sound₂⟩
        intro key unsteady
        rw [Table.get?_insert, Table.get?_insert, h.results key unsteady]

end Mirrors

end Memo

namespace Sheet

/-- The sheet with everything forgotten that was computed. -/
def forget (s : Sheet) : Sheet := s.withEvaluator s.evaluator.clear

/-- What is held on one side lacks at most settled values and steady results
that are held on the other. -/
structure Mirrors (s : Sheet) (h₁ h₂ : Held) : Prop where
  values : ∀ id, h₂.values.get? id = h₁.values.get? id ∨
    (h₂.values.get? id = none ∧ s.isDerived id = true ∧ Settled s h₁.values id)
  memo : Memo.Mirrors s.evaluator.setting h₁.memo h₂.memo

/-- The stack of a read: variables being evaluated, with room for every other
variable. -/
structure Stacked (s : Sheet) (stack : List String) (room : Nat) : Prop where
  nodup : stack.Nodup
  derived : ∀ id ∈ stack, s.isDerived id = true
  room : s.size < stack.length + room

namespace Stacked

variable {s : Sheet} {stack : List String} {room : Nat}

/-- A read from outside begins with an empty stack. -/
theorem start (s : Sheet) : Stacked s [] (s.size + 1) where
  nodup := List.nodup_nil
  derived := by simp
  room := by simp

/-- There is always room for one more. -/
theorem room_pos (h : Stacked s stack room) : 0 < room := by
  have known : stack ⊆ s.definitions.keys :=
    fun id hid => mem_keys_of_isDerived (h.derived id hid)
  have le := h.nodup.length_le_of_subset known
  have size : s.definitions.keys.length = s.size := List.length_map ..
  have := h.room
  omega

theorem push (h : Stacked s stack (room + 1)) {id : String} (derived : s.isDerived id = true)
    (off : id ∉ stack) : Stacked s (id :: stack) room where
  nodup := List.nodup_cons.mpr ⟨off, h.nodup⟩
  derived := by
    intro other hother
    rcases List.mem_cons.mp hother with rfl | hother
    · exact derived
    · exact h.derived other hother
  room := by
    have := h.room
    rw [List.length_cons]
    omega

end Stacked

/-- What is settled does not need itself. -/
theorem Settled.acyclic {s : Sheet} {values : Table Value} {id : String}
    (h : Settled s values id) : ¬ Relation.TransGen s.RefersTo id id := by
  induction h with
  | source hv hformula =>
      intro path
      obtain ⟨b, href, _⟩ := Relation.TransGen.head'_iff.mp path
      have derived := href.isDerived
      rw [isDerived_of_source hv hformula] at derived
      cases derived
  | @derived id v formula w hv hformula hw _ _ ih =>
      intro path
      obtain ⟨b, href, back⟩ := Relation.TransGen.head'_iff.mp path
      obtain ⟨name, hname, hb⟩ := href.exists_mention hv hformula
      exact ih name hname b hb (Relation.TransGen.tail' back href)

/-- If a variable leads to nothing on the stack and does not need itself, then
what it refers to leads to nothing on the stack with the variable on top. -/
theorem RefersTo.clear_push {s : Sheet} {id other : String} {stack : List String}
    (href : s.RefersTo id other) (acyclic : ¬ Relation.TransGen s.RefersTo id id)
    (clear : ∀ below ∈ stack, ¬ Relation.ReflTransGen s.RefersTo id below) :
    ∀ below ∈ id :: stack, ¬ Relation.ReflTransGen s.RefersTo other below := by
  intro below hbelow path
  rcases List.mem_cons.mp hbelow with rfl | hbelow
  · exact acyclic (Relation.TransGen.head' href path)
  · exact clear below hbelow (.head href path)

/-- With every reference settled, both sides put the same values into a
formula's text. -/
theorem fill_settled {s : Sheet} {h₁ : Held} {read : Reader} {o : Outline}
    (hread : ∀ name ∈ o.mentions, ∀ other, s.names.get? name = some other → ∀ h₂,
      Mirrors s h₁ h₂ → ∃ h₂', read other h₂ = (.ok ((h₁.values.get? other).getD .null), h₂') ∧
        Mirrors s h₁ h₂')
    {h₂ : Held} (hm : Mirrors s h₁ h₂) :
    ∃ h₂', o.fill (s.lookUp read) ⟨h₂, none⟩ = (o.textWith (s.shown h₁.values), ⟨h₂', none⟩) ∧
      Mirrors s h₁ h₂' := by
  induction o generalizing h₂ with
  | nil => exact ⟨h₂, rfl, hm⟩
  | cons p ps ih =>
      cases p with
      | reference w =>
          have later := fun name hname => hread name (List.mem_cons_of_mem _ hname)
          cases hname : s.names.get? (String.ofList w) with
          | none =>
              obtain ⟨h₂', eq, hm'⟩ := ih later hm
              refine ⟨h₂', ?_, hm'⟩
              have first : s.lookUp read (String.ofList w) ⟨h₂, none⟩ = (none, ⟨h₂, none⟩) :=
                lookUp_of_unknown hname
              rw [Outline.fill, first, eq, Outline.textWith, shown, hname]
              rfl
          | some other =>
              obtain ⟨middle, hfirst, hmiddle⟩ :=
                hread _ List.mem_cons_self other hname h₂ hm
              obtain ⟨h₂', eq, hm'⟩ := ih later hmiddle
              refine ⟨h₂', ?_, hm'⟩
              have first : s.lookUp read (String.ofList w) ⟨h₂, none⟩ =
                  (some ((h₁.values.get? other).getD .null), ⟨middle, none⟩) :=
                lookUp_of_ok hname rfl hfirst
              rw [Outline.fill, first, eq, Outline.textWith, shown, hname]
              rfl
      | callee w =>
          obtain ⟨h₂', eq, hm'⟩ := ih hread hm
          refine ⟨h₂', ?_, hm'⟩
          rw [Outline.fill, eq, Outline.textWith]
      | plain i =>
          obtain ⟨h₂', eq, hm'⟩ := ih hread hm
          refine ⟨h₂', ?_, hm'⟩
          rw [Outline.fill, eq, Outline.textWith]

/-- A settled value is found again by a read that has forgotten it. -/
theorem readFrom_settled {s : Sheet} {h₁ : Held} {id : String} (settled : Settled s h₁.values id) :
    ∀ {stack room h₂}, Stacked s stack room →
      (∀ other ∈ stack, ¬ Relation.ReflTransGen s.RefersTo id other) → Mirrors s h₁ h₂ →
      ∃ h₂', s.readFrom room stack id h₂ = (.ok ((h₁.values.get? id).getD .null), h₂') ∧
        Mirrors s h₁ h₂' := by
  induction settled with
  | @source id v hv hformula =>
      intro stack room h₂ hstack _ hm
      obtain ⟨room, rfl⟩ := Nat.exists_eq_succ_of_ne_zero (Nat.ne_of_gt hstack.room_pos)
      have same : h₂.values.get? id = h₁.values.get? id := by
        rcases hm.values id with same | ⟨_, derived, _⟩
        · exact same
        · rw [isDerived_of_source hv hformula] at derived
          cases derived
      exact ⟨h₂, by rw [readFrom_of_source hv hformula, same], hm⟩
  | @derived id v formula w hv hformula hw hrefs steady ih =>
      intro stack room h₂ hstack hclear hm
      obtain ⟨room, rfl⟩ := Nat.exists_eq_succ_of_ne_zero (Nat.ne_of_gt hstack.room_pos)
      have derived := isDerived_of_formula hv hformula
      have whole : Settled s h₁.values id := .derived hv hformula hw hrefs steady
      have off : id ∉ stack := fun on => hclear id on .refl
      rcases hm.values id with same | ⟨missing, _, _⟩
      · refine ⟨h₂, ?_, hm⟩
        rw [readFrom_of_held hv (same.trans hw), hw]
        rfl
      · have hread : ∀ name ∈ (bodyOf formula).mentions, ∀ other,
            s.names.get? name = some other → ∀ h₂, Mirrors s h₁ h₂ →
            ∃ h₂', s.readFrom room (id :: stack) other h₂ =
              (.ok ((h₁.values.get? other).getD .null), h₂') ∧ Mirrors s h₁ h₂' := by
          intro name hname other hother h₂ hm
          have href : s.RefersTo id other := ⟨v, formula, hv, hformula, name, hname, hother⟩
          exact ih name hname other hother (hstack.push derived off)
            (href.clear_push whole.acyclic hclear) hm
        obtain ⟨h₂', hfill, hm'⟩ := fill_settled hread hm
        obtain ⟨same, hmemo⟩ := hm'.memo.conclude_right steady
        refine ⟨⟨h₂'.values.insert id w,
          (s.evaluator.setting.conclude ((bodyOf formula).textWith (s.shown h₁.values))
            h₂'.memo).2⟩, ?_, ?_, hmemo⟩
        · rw [readFrom_of_off hv hformula missing off, hfill, hw]
          exact settle_of_ok rfl (Prod.ext same rfl)
        · intro other
          dsimp only
          rw [Table.get?_insert]
          by_cases hid : id = other
          · subst hid
            rw [if_pos rfl, hw]
            exact .inl rfl
          · rw [if_neg hid]
            exact hm'.values other

/-- Two readers do the same on stores that mirror each other. -/
def Parallel (s : Sheet) (stack : List String) (read : Reader) : Prop :=
  ∀ id h₁ h₂, (∀ other ∈ stack, h₁.values.get? other = none) → Mirrors s h₁ h₂ →
    (read id h₂).1 = (read id h₁).1 ∧ Mirrors s (read id h₁).2 (read id h₂).2

/-- Reading a reference on both sides. -/
theorem lookUp_mirrors {s : Sheet} {stack : List String} {read : Reader}
    (hread : Parallel s stack read) {g₁ g₂ : Gathering} (hfailure : g₂.failure = g₁.failure)
    (hfree : ∀ other ∈ stack, g₁.held.values.get? other = none)
    (hm : Mirrors s g₁.held g₂.held) (name : String) :
    (s.lookUp read name g₂).1 = (s.lookUp read name g₁).1 ∧
      (s.lookUp read name g₂).2.failure = (s.lookUp read name g₁).2.failure ∧
      Mirrors s (s.lookUp read name g₁).2.held (s.lookUp read name g₂).2.held := by
  cases hname : s.names.get? name with
  | none =>
      rw [lookUp_of_unknown hname, lookUp_of_unknown hname]
      exact ⟨rfl, hfailure, hm⟩
  | some id =>
      cases hf : g₁.failure with
      | some e =>
          rw [lookUp_of_failed hf, lookUp_of_failed (hfailure.trans hf)]
          exact ⟨rfl, hfailure, hm⟩
      | none =>
          obtain ⟨same, hm'⟩ := hread id g₁.held g₂.held hfree hm
          rcases hresult₁ : read id g₁.held with ⟨result, held₁⟩
          rcases hresult₂ : read id g₂.held with ⟨result₂, held₂⟩
          rw [hresult₁, hresult₂] at same hm'
          dsimp only at same hm'
          subst same
          cases result₂ with
          | error e =>
              rw [lookUp_of_error hname hf hresult₁,
                lookUp_of_error hname (hfailure.trans hf) hresult₂]
              exact ⟨rfl, rfl, hm'⟩
          | ok v =>
              rw [lookUp_of_ok hname hf hresult₁, lookUp_of_ok hname (hfailure.trans hf) hresult₂]
              exact ⟨rfl, rfl, hm'⟩

/-- Reading the references of a formula on both sides. -/
theorem fill_mirrors {s : Sheet} {stack : List String} {read : Reader}
    (hread : Parallel s stack read) (hgrows : ∀ id h, Grows s stack h (read id h).2)
    (o : Outline) (g₁ g₂ : Gathering) (hfailure : g₂.failure = g₁.failure)
    (hfree : ∀ other ∈ stack, g₁.held.values.get? other = none)
    (hm : Mirrors s g₁.held g₂.held) :
    (o.fill (s.lookUp read) g₂).1 = (o.fill (s.lookUp read) g₁).1 ∧
      (o.fill (s.lookUp read) g₂).2.failure = (o.fill (s.lookUp read) g₁).2.failure ∧
      Mirrors s (o.fill (s.lookUp read) g₁).2.held (o.fill (s.lookUp read) g₂).2.held := by
  induction o generalizing g₁ g₂ with
  | nil => exact ⟨rfl, hfailure, hm⟩
  | cons p ps ih =>
      cases p with
      | reference w =>
          obtain ⟨value, failure, hm'⟩ :=
            lookUp_mirrors hread hfailure hfree hm (String.ofList w)
          have grows := lookUp_grows hgrows (String.ofList w) g₁
          obtain ⟨text, rest⟩ :=
            ih _ _ failure (fun other on => grows.get?_eq_none on (hfree other on)) hm'
          refine ⟨?_, rest⟩
          simp only [Outline.fill]
          rw [value, text]
      | callee w =>
          obtain ⟨text, rest⟩ := ih _ _ hfailure hfree hm
          exact ⟨congrArg (w ++ ·) text, rest⟩
      | plain i =>
          obtain ⟨text, rest⟩ := ih _ _ hfailure hfree hm
          exact ⟨congrArg (i.text ++ ·) text, rest⟩

/-- Settling a formula on both sides. -/
theorem settle_mirrors {s : Sheet} {v : Variable} {id : String} {g₁ g₂ : Gathering}
    (derived : s.isDerived id = true) (free : g₁.held.values.get? id = none)
    (hfailure : g₂.failure = g₁.failure) (hm : Mirrors s g₁.held g₂.held) (text : List Char) :
    (s.settle v id text g₂).1 = (s.settle v id text g₁).1 ∧
      Mirrors s (s.settle v id text g₁).2 (s.settle v id text g₂).2 := by
  obtain ⟨same, hmemo⟩ := hm.memo.conclude text
  cases hf : g₁.failure with
  | some e =>
      rw [settle_of_failed hf, settle_of_failed (hfailure.trans hf)]
      exact ⟨rfl, hm.values, hmemo⟩
  | none =>
      have grows := settle_grows [] (v := v) text g₁ derived List.not_mem_nil free
      rcases houtcome₁ : s.evaluator.setting.conclude text g₁.held.memo with ⟨outcome, m₁⟩
      rcases houtcome₂ : s.evaluator.setting.conclude text g₂.held.memo with ⟨outcome₂, m₂⟩
      rw [houtcome₁, houtcome₂] at same hmemo
      dsimp only at same hmemo
      subst same
      cases outcome₂ with
      | error e =>
          rw [settle_of_error hf houtcome₁, settle_of_error (hfailure.trans hf) houtcome₂]
          exact ⟨rfl, hm.values, hmemo⟩
      | ok w =>
          rw [settle_of_ok hf houtcome₁] at grows
          rw [settle_of_ok hf houtcome₁, settle_of_ok (hfailure.trans hf) houtcome₂]
          refine ⟨rfl, ?_, hmemo⟩
          intro other
          dsimp only
          rw [Table.get?_insert, Table.get?_insert]
          by_cases hid : id = other
          · rw [if_pos hid, if_pos hid]
            exact .inl rfl
          · rw [if_neg hid, if_neg hid]
            rcases hm.values other with same | ⟨missing, derived, settled⟩
            · exact .inl same
            · exact .inr ⟨missing, derived, settled.of_grows grows⟩

/-- Reads on stores that mirror each other have the same result, and the
stores mirror each other afterwards. -/
theorem readFrom_mirrors {s : Sheet} {room : Nat} {stack : List String}
    (hstack : Stacked s stack room) : Parallel s stack (s.readFrom room stack) := by
  induction room generalizing stack with
  | zero => exact absurd hstack.room_pos (Nat.lt_irrefl 0)
  | succ room ih =>
      intro id h₁ h₂ hfree hm
      cases hv : s.definitions.get? id with
      | none =>
          rw [readFrom_of_unknown hv, readFrom_of_unknown hv]
          exact ⟨rfl, hm⟩
      | some v =>
          rcases hm.values id with same | ⟨missing, derived, settled⟩
          · cases hheld : h₁.values.get? id with
            | some w =>
                rw [readFrom_of_held hv hheld, readFrom_of_held hv (same.trans hheld)]
                exact ⟨rfl, hm⟩
            | none =>
                cases hformula : v.formula with
                | none =>
                    rw [readFrom_of_source hv hformula, readFrom_of_source hv hformula, same]
                    exact ⟨rfl, hm⟩
                | some formula =>
                    by_cases on : id ∈ stack
                    · rw [readFrom_of_on hv hformula hheld on,
                        readFrom_of_on hv hformula (same.trans hheld) on]
                      exact ⟨rfl, hm⟩
                    · have derived := isDerived_of_formula hv hformula
                      have hgrows := fun other h => s.readFrom_grows room (id :: stack) other h
                      have hfree' : ∀ other ∈ id :: stack, h₁.values.get? other = none := by
                        intro other hother
                        rcases List.mem_cons.mp hother with rfl | hother
                        · exact hheld
                        · exact hfree other hother
                      obtain ⟨text, failure, hm'⟩ := fill_mirrors (ih (hstack.push derived on))
                        hgrows (bodyOf formula) ⟨h₁, none⟩ ⟨h₂, none⟩ rfl hfree' hm
                      have grows := fill_grows (id :: stack) hgrows (bodyOf formula) ⟨h₁, none⟩
                      have free := grows.get?_eq_none List.mem_cons_self hheld
                      rw [readFrom_of_off hv hformula hheld on,
                        readFrom_of_off hv hformula (same.trans hheld) on, text]
                      exact settle_mirrors derived free failure hm' _
          · -- what one side holds the other computes again
            have closure : ∀ {below}, Relation.ReflTransGen s.RefersTo id below →
                Settled s h₁.values below := by
              intro below path
              induction path with
              | refl => exact settled
              | tail _ href ih => exact ih.of_refersTo href
            have hclear : ∀ other ∈ stack, ¬ Relation.ReflTransGen s.RefersTo id other := by
              intro other on path
              have held := (closure path).isSome (hstack.derived other on)
              rw [hfree other on] at held
              cases held
            obtain ⟨h₂', hread, hm'⟩ := readFrom_settled settled hstack hclear hm
            obtain ⟨w, hw⟩ := Option.isSome_iff_exists.mp (settled.isSome derived)
            rw [hread, readFrom_of_held hv hw, hw]
            exact ⟨rfl, hm'⟩

/-- Reading goes by the definitions, the names and what texts come to. -/
theorem readFrom_congr {s t : Sheet} (definitions : t.definitions = s.definitions)
    (names : t.names = s.names)
    (conclude : t.evaluator.setting.conclude = s.evaluator.setting.conclude)
    (room : Nat) (stack : List String) : t.readFrom room stack = s.readFrom room stack := by
  induction room generalizing stack with
  | zero => rfl
  | succ room ih =>
      have nameOf : t.nameOf = s.nameOf := by
        funext id
        rw [Sheet.nameOf, definitions, Sheet.nameOf]
      have cycle : t.cyclePath = s.cyclePath := by
        funext stack id
        rw [Sheet.cyclePath, nameOf, Sheet.cyclePath]
      have lookUp : t.lookUp = s.lookUp := by
        funext read name g
        unfold Sheet.lookUp
        rw [names]
      have compute : t.compute = s.compute := by
        funext read v formula id h
        unfold Sheet.compute
        rw [lookUp, conclude]
      funext id h
      unfold readFrom
      rw [ih, definitions, cycle, compute]

theorem readFrom_forget (s : Sheet) (room : Nat) (stack : List String) :
    s.forget.readFrom room stack = s.readFrom room stack :=
  readFrom_congr (s := s) (t := s.forget) rfl rfl rfl room stack

/-- A coherent sheet answers every read as if all that it computed were
forgotten first. -/
theorem Coherent.fst_read_eq {s : Sheet} (hc : s.Coherent s.held) (id : String) :
    (s.forget.read id).1 = (s.read id).1 := by
  have hm : Mirrors s s.held s.forget.held := by
    refine ⟨?_, Memo.Coherent.mirrors hc.memo (Memo.coherent_of_empty rfl) rfl⟩
    intro other
    have forgotten : s.forget.held.values.get? other =
        if s.isDerived other = true then none else s.values.get? other := by
      have filtered := Table.get?_filter s.values (fun other => !s.isDerived other) other
      cases derived : s.isDerived other <;> simp only [derived] at filtered <;> exact filtered
    rw [forgotten]
    split
    · rename_i derived
      cases held : s.values.get? other with
      | none => exact .inl held.symm
      | some w => exact .inr ⟨rfl, derived, hc.values derived held⟩
    · exact .inl rfl
  have same := (readFrom_mirrors (.start s) id s.held s.forget.held (by simp) hm).1
  rw [fst_read, fst_read, readFrom_forget]
  exact same

/-- **A sheet that ordinary operations lead to without a draw answers every
read as if all that it computed were forgotten first.** -/
theorem Reaches.read_forget {e : Evaluator} (hnew : e.memo.results = .empty) {s : Sheet}
    (h : Reaches Ordinary (ofEvaluator e) s) (quiet : s.drawn = (ofEvaluator e).drawn)
    (id : String) : (s.read id).1 = (s.forget.read id).1 :=
  ((h.coherent hnew quiet).fst_read_eq id).symm

/-- A flag. -/
def flag : Variable :=
  { Variable.create "flag" "flag" .boolean with default := some (.bool true) }

/-- The negation of the flag. -/
def opposite : Variable :=
  { Variable.create "opposite" "opposite" .boolean with formula := some "!flag" }

/-- A derived variable with its id for a name. -/
def gate (id formula : String) : Variable :=
  { Variable.create id id .boolean with formula := some formula }

/-- An evaluator as it is created. -/
def plainEvaluator : Evaluator := .create .still .builtins .empty

/-- The sheet of a flag and its negation, which was read. -/
def flagSheet : Sheet :=
  (((ofEvaluator plainEvaluator).apply (.register flag)).apply (.register opposite)).apply
    (.read "opposite")

theorem flagSheet_reached : Reaches Ordinary (ofEvaluator plainEvaluator) flagSheet := by
  refine .step (.step (.step .start ?_) ?_) trivial
  · intro s' previous _ hprevious
    cases hprevious
  · intro s' previous _ hprevious
    have unknown : ((ofEvaluator plainEvaluator).apply (.register flag)).definitions.get?
        opposite.id = none := by decide +kernel
    rw [unknown] at hprevious
    cases hprevious

/-- The negation is held, and what is held is what it comes to. -/
theorem read_forget_flagSheet : (flagSheet.values.get? "opposite").isSome = true ∧
    (flagSheet.read "opposite").1 = (flagSheet.forget.read "opposite").1 :=
  ⟨by decide +kernel, Reaches.read_forget rfl flagSheet_reached (by decide +kernel) "opposite"⟩

end Sheet

end FormulaSheet
