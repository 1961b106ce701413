import FormulaSheet.Proofs.Draws
import FormulaSheet.Sheet.Change

/-!
# What reading leaves

A read fills two stores as it goes, possibly on behalf of variables whose own
evaluation then fails.  Whatever it is asked for and however it ends, it only
adds: no value that is held is changed, and a value is added only for a
derived variable that is not being evaluated.

* `Outline.fill` — substitution as a plain recursion that hands the state on;
  `Sheet.compute_eq` opens the evaluation of a formula with it;
* `Sheet.readFrom_cases` — the ways in which a read goes;
* `Sheet.Grows` — what reading may do to what is held, a preorder;
* `Sheet.readFrom_grows`, `Sheet.read_grows` — every read does no more;
* `Sheet.readFrom_quietly` — what a read respects that makes no draw.
-/

namespace FormulaSheet

namespace Outline

variable {σ : Type}

/-- The text with references replaced by the literals of what `lookup` finds,
and the state that the look-ups leave. -/
def fill (lookup : String → StateM σ (Option Value)) : Outline → σ → List Char × σ
  | [], g => ([], g)
  | .reference w :: ps, g =>
    let found := lookup (String.ofList w) g
    let rest := fill lookup ps found.2
    ((found.1.map Value.splice).getD w ++ rest.1, rest.2)
  | .callee w :: ps, g =>
    let rest := fill lookup ps g
    (w ++ rest.1, rest.2)
  | .plain i :: ps, g =>
    let rest := fill lookup ps g
    (i.text ++ rest.1, rest.2)

/-- Once a reference was looked up, what was found is written for it, and its name noted
if that is a value. -/
theorem substituteFrom_reference {m : Type → Type} [Monad m] [LawfulMonad m]
    {lookup : String → StateT σ m (Option Value)} {w : List Char} {g g' : σ}
    {value? : Option Value} (found : lookup (String.ofList w) g = pure (value?, g'))
    (out : List Char) (names : List String) (ps : Outline) :
    (substituteFrom lookup out names (.reference w :: ps)).run g =
      (substituteFrom lookup (((value?.map Value.splice).getD w).reverseAux out)
        (value?.elim names fun _ => addName names (String.ofList w)) ps).run g' := by
  rw [substituteFrom, StateT.run_bind, StateT.run, found, pure_bind]
  cases value? <;> rfl

/-- What is put together is what was there before and what is filled in. -/
theorem substituteFrom_run (lookup : String → StateM σ (Option Value)) (o : Outline)
    (out : List Char) (names : List String) (g : σ) :
    ∃ names', (substituteFrom lookup out names o).run g =
      ((out.reverse ++ (fill lookup o g).1, names'), (fill lookup o g).2) := by
  induction o generalizing out names g with
  | nil =>
      refine ⟨names.reverse, ?_⟩
      rw [fill, List.append_nil]
      rfl
  | cons p ps ih =>
      cases p with
      | reference w =>
          obtain ⟨names', eq⟩ := ih _ _ _
          refine ⟨names', ?_⟩
          rw [substituteFrom_reference rfl, eq]
          simp [fill, List.reverseAux_eq]
      | callee w =>
          obtain ⟨names', eq⟩ := ih (w.reverseAux out) names g
          refine ⟨names', ?_⟩
          rw [substituteFrom, eq]
          simp [fill, List.reverseAux_eq]
      | plain i =>
          obtain ⟨names', eq⟩ := ih (i.text.reverseAux out) names g
          refine ⟨names', ?_⟩
          rw [substituteFrom, eq]
          simp [fill, List.reverseAux_eq]

/-- The second part of an outline is filled from where the first leaves off. -/
theorem fill_append (lookup : String → StateM σ (Option Value)) (o o' : Outline) (g : σ) :
    fill lookup (o ++ o') g =
      ((fill lookup o g).1 ++ (fill lookup o' (fill lookup o g).2).1,
        (fill lookup o' (fill lookup o g).2).2) := by
  induction o generalizing g with
  | nil => rfl
  | cons p ps ih => cases p <;> simp [fill, ih]

/-- A preorder that every look-up respects, the substitution respects. -/
theorem fill_respects {lookup : String → StateM σ (Option Value)} {R : σ → σ → Prop}
    (refl : ∀ g, R g g) (trans : ∀ {f g h}, R f g → R g h → R f h)
    (step : ∀ name g, R g (lookup name g).2) (o : Outline) (g : σ) :
    R g (fill lookup o g).2 := by
  induction o generalizing g with
  | nil => exact refl g
  | cons p ps ih =>
      cases p with
      | reference w => exact trans (step _ g) (ih _)
      | callee w => exact ih g
      | plain i => exact ih g

end Outline

namespace Sheet

/-- The formula of a variable in outline. -/
def bodyOf (formula : String) : Outline := Outline.ofText (formulaBody formula.toList)

section IsDerived

variable {s : Sheet} {id formula : String} {v : Variable}

/-- A registered id is derived if its variable is. -/
theorem isDerived_eq (hv : s.definitions.get? id = some v) : s.isDerived id = v.isDerived := by
  rw [isDerived, hv, Option.any_some]

/-- What is derived has a definition. -/
theorem mem_keys_of_isDerived (derived : s.isDerived id = true) : id ∈ s.definitions.keys := by
  obtain ⟨v, hv, _⟩ := (Option.any_eq_true _ _).mp derived
  exact List.mem_map.mpr ⟨(id, v), (Table.mem_entries_iff _ _ _).mpr hv, rfl⟩

/-- A variable with a formula is derived. -/
theorem isDerived_of_formula (hv : s.definitions.get? id = some v)
    (hformula : v.formula = some formula) : s.isDerived id = true := by
  rw [isDerived_eq hv, Variable.isDerived, hformula, Option.isSome_some]

/-- A variable without a formula is a source. -/
theorem isDerived_of_source (hv : s.definitions.get? id = some v) (hformula : v.formula = none) :
    s.isDerived id = false := by
  rw [isDerived_eq hv, Variable.isDerived, hformula, Option.isSome_none]

end IsDerived

/-- What evaluating a formula comes to once its references were read. -/
def settle (s : Sheet) (v : Variable) (id : String) (text : List Char) (g : Gathering) :
    Except SheetError Value × Held :=
  let concluded := s.evaluator.setting.conclude text g.held.memo
  match g.failure, concluded.1 with
  | some e, _ => (.error e, ⟨g.held.values, concluded.2⟩)
  | none, .error e => (.error (.evaluation v.name e), ⟨g.held.values, concluded.2⟩)
  | none, .ok value => (.ok value, ⟨g.held.values.insert id value, concluded.2⟩)

/-- Evaluating a formula: its references are read from left to right, and then
what it comes to is settled. -/
theorem compute_eq (s : Sheet) (read : Reader) (v : Variable) (formula id : String) (h : Held) :
    s.compute read v formula id h =
      s.settle v id ((bodyOf formula).fill (s.lookUp read) ⟨h, none⟩).1
        ((bodyOf formula).fill (s.lookUp read) ⟨h, none⟩).2 := by
  obtain ⟨names, run⟩ :=
    Outline.substituteFrom_run (s.lookUp read) (bodyOf formula) [] [] ⟨h, none⟩
  unfold bodyOf at run ⊢
  simp only [compute, Outline.substitute, run]
  rfl

/-- The path of a cycle goes by what is above the id on the stack. -/
theorem cyclePath_of_notMem {s : Sheet} {id : String} {above : List String} (off : id ∉ above)
    (below : List String) : s.cyclePath (above ++ id :: below) id =
      (s.nameOf id :: above.map s.nameOf ++ [s.nameOf id]).reverse := by
  have cut : (above ++ id :: below).takeWhile (· != id) = above := by
    rw [List.takeWhile_append_of_pos, List.takeWhile_cons_of_neg (by simp), List.append_nil]
    intro other hother
    have ne : other ≠ id := fun eq => off (eq ▸ hother)
    simpa using ne
  rw [cyclePath, cut]

section ReadFrom

variable {s : Sheet} {room : Nat} {stack : List String} {id : String} {h : Held} {v : Variable}
  {formula : String}

/-- An id that is not registered cannot be read. -/
theorem readFrom_of_unknown (hv : s.definitions.get? id = none) :
    s.readFrom (room + 1) stack id h = (.error (.unknownVariable id), h) := by
  rw [readFrom, hv]

/-- A value that is held is the answer. -/
theorem readFrom_of_held {w : Value} (hv : s.definitions.get? id = some v)
    (hw : h.values.get? id = some w) : s.readFrom (room + 1) stack id h = (.ok w, h) := by
  rw [readFrom, hv]
  dsimp only
  rw [hw]

/-- A source is read from the table of values. -/
theorem readFrom_of_source (hv : s.definitions.get? id = some v) (hformula : v.formula = none) :
    s.readFrom (room + 1) stack id h = (.ok ((h.values.get? id).getD .null), h) := by
  rw [readFrom, hv]
  dsimp only
  rw [hformula]
  cases h.values.get? id <;> rfl

/-- A derived variable that is being evaluated already closes a cycle. -/
theorem readFrom_of_on (hv : s.definitions.get? id = some v) (hformula : v.formula = some formula)
    (free : h.values.get? id = none) (on : id ∈ stack) : s.readFrom (room + 1) stack id h =
      (.error (.circularDependency (s.cyclePath stack id)), h) := by
  rw [readFrom, hv]
  dsimp only
  rw [free, hformula]
  dsimp only
  rw [if_pos (by simpa using on)]

/-- Any other derived variable without a value is evaluated. -/
theorem readFrom_of_off (hv : s.definitions.get? id = some v) (hformula : v.formula = some formula)
    (free : h.values.get? id = none) (off : id ∉ stack) : s.readFrom (room + 1) stack id h =
      s.settle v id ((bodyOf formula).fill (s.lookUp (s.readFrom room (id :: stack))) ⟨h, none⟩).1
        ((bodyOf formula).fill (s.lookUp (s.readFrom room (id :: stack))) ⟨h, none⟩).2 := by
  rw [readFrom, hv]
  dsimp only
  rw [free, hformula]
  dsimp only
  rw [if_neg (by simpa using off), compute_eq]

/-- Whatever read is made, it is one of these. -/
theorem readFrom_cases {P : Except SheetError Value × Held → Prop}
    (unknown : s.definitions.get? id = none → P (.error (.unknownVariable id), h))
    (held : ∀ {v w}, s.definitions.get? id = some v → h.values.get? id = some w → P (.ok w, h))
    (source : ∀ {v}, s.definitions.get? id = some v → v.formula = none →
      h.values.get? id = none → P (.ok .null, h))
    (on : ∀ {v formula}, s.definitions.get? id = some v → v.formula = some formula →
      h.values.get? id = none → id ∈ stack →
        P (.error (.circularDependency (s.cyclePath stack id)), h))
    (off : ∀ {v formula}, s.definitions.get? id = some v → v.formula = some formula →
      h.values.get? id = none → id ∉ stack →
        P (s.settle v id
          ((bodyOf formula).fill (s.lookUp (s.readFrom room (id :: stack))) ⟨h, none⟩).1
          ((bodyOf formula).fill (s.lookUp (s.readFrom room (id :: stack))) ⟨h, none⟩).2)) :
    P (s.readFrom (room + 1) stack id h) := by
  cases hv : s.definitions.get? id with
  | none =>
      rw [readFrom_of_unknown hv]
      exact unknown hv
  | some v =>
      cases hw : h.values.get? id with
      | some w =>
          rw [readFrom_of_held hv hw]
          exact held hv hw
      | none =>
          cases hformula : v.formula with
          | none =>
              rw [readFrom_of_source hv hformula, hw]
              exact source hv hformula hw
          | some formula =>
              by_cases hon : id ∈ stack
              · rw [readFrom_of_on hv hformula hw hon]
                exact on hv hformula hw hon
              · rw [readFrom_of_off hv hformula hw hon]
                exact off hv hformula hw hon

end ReadFrom

/-- What reading may do to what is held while the variables on the stack are
being evaluated. -/
structure Grows (s : Sheet) (stack : List String) (h h' : Held) : Prop where
  keeps : ∀ {id w}, h.values.get? id = some w → h'.values.get? id = some w
  adds : ∀ {id w}, h'.values.get? id = some w →
    h.values.get? id = some w ∨ (s.isDerived id = true ∧ id ∉ stack)
  le_drawn : h.memo.random.drawn ≤ h'.memo.random.drawn

namespace Grows

variable {s : Sheet} {stack : List String} {h h' h'' : Held}

protected theorem refl (s : Sheet) (stack : List String) (h : Held) : Grows s stack h h :=
  ⟨id, .inl, Nat.le_refl _⟩

protected theorem trans (first : Grows s stack h h') (second : Grows s stack h' h'') :
    Grows s stack h h'' := by
  refine ⟨fun held => second.keeps (first.keeps held), ?_,
    Nat.le_trans first.le_drawn second.le_drawn⟩
  intro id w held
  rcases second.adds held with held | added
  · exact first.adds held
  · exact .inr added

/-- What holds with more on the stack holds with less. -/
theorem pop {id : String} (grows : Grows s (id :: stack) h h') : Grows s stack h h' := by
  refine ⟨grows.keeps, ?_, grows.le_drawn⟩
  intro other w held
  rcases grows.adds held with held | ⟨derived, off⟩
  · exact .inl held
  · exact .inr ⟨derived, fun on => off (List.mem_cons_of_mem _ on)⟩

/-- What is added under a stack is added without it. -/
theorem of_nil (grows : Grows s stack h h') : Grows s [] h h' := by
  induction stack with
  | nil => exact grows
  | cons id stack ih => exact ih grows.pop

/-- A value that is not held and cannot be added is not held afterwards. -/
theorem get?_eq_none {id : String} (grows : Grows s stack h h') (on : id ∈ stack)
    (free : h.values.get? id = none) : h'.values.get? id = none := by
  cases held : h'.values.get? id with
  | none => rfl
  | some w =>
      rcases grows.adds held with before | ⟨_, off⟩
      · rw [free] at before
        cases before
      · exact absurd on off

/-- What is held for a source stays. -/
theorem get?_source {id : String} (grows : Grows s stack h h') (source : s.isDerived id = false) :
    h'.values.get? id = h.values.get? id := by
  cases before : h.values.get? id with
  | some w => exact grows.keeps before
  | none =>
      cases held : h'.values.get? id with
      | none => rfl
      | some w =>
          rcases grows.adds held with held | ⟨derived, _⟩
          · rw [before] at held
            cases held
          · rw [source] at derived
            cases derived

/-- A memo may be replaced by one after more draws. -/
theorem memo (s : Sheet) (stack : List String) (h : Held) {m : Memo}
    (le : h.memo.random.drawn ≤ m.random.drawn) : Grows s stack h ⟨h.values, m⟩ :=
  ⟨id, .inl, le⟩

end Grows

section LookUp

variable {s : Sheet} {read : Reader} {name : String} {g : Gathering}

/-- A name of no variable has no value. -/
theorem lookUp_of_unknown (hname : s.names.get? name = none) :
    s.lookUp read name g = (none, g) := by
  unfold lookUp
  rw [hname]

/-- After a failure nothing is read. -/
theorem lookUp_of_failed {e : SheetError} (hfailure : g.failure = some e) :
    s.lookUp read name g = (none, g) := by
  unfold lookUp
  rw [hfailure]
  cases s.names.get? name <;> rfl

/-- A name that can be read stands for its value. -/
theorem lookUp_of_ok {id : String} {v : Value} {held : Held} (hname : s.names.get? name = some id)
    (hfailure : g.failure = none) (hread : read id g.held = (.ok v, held)) :
    s.lookUp read name g = (some v, ⟨held, none⟩) := by
  unfold lookUp
  rw [hname, hfailure]
  simp only [hread]

/-- The first name that cannot be read is noted as the failure. -/
theorem lookUp_of_error {id : String} {e : SheetError} {held : Held}
    (hname : s.names.get? name = some id) (hfailure : g.failure = none)
    (hread : read id g.held = (.error e, held)) :
    s.lookUp read name g = (none, ⟨held, some e⟩) := by
  unfold lookUp
  rw [hname, hfailure]
  simp only [hread]

end LookUp

section Settle

variable {s : Sheet} {v : Variable} {id : String} {text : List Char} {g : Gathering} {m : Memo}

/-- Settling evaluates the text, whatever failed before. -/
theorem memo_settle : (s.settle v id text g).2.memo =
    (s.evaluator.setting.conclude text g.held.memo).2 := by
  unfold settle
  dsimp only
  split <;> rfl

/-- A failure of a dependency is passed on. -/
theorem settle_of_failed {e : SheetError} (hfailure : g.failure = some e) :
    s.settle v id text g = (.error e,
      ⟨g.held.values, (s.evaluator.setting.conclude text g.held.memo).2⟩) := by
  unfold settle
  rw [hfailure]

/-- A failure of the text is one of the variable. -/
theorem settle_of_error {e : FormulaError} (hfailure : g.failure = none)
    (houtcome : s.evaluator.setting.conclude text g.held.memo = (.error e, m)) :
    s.settle v id text g = (.error (.evaluation v.name e), ⟨g.held.values, m⟩) := by
  unfold settle
  rw [hfailure, houtcome]

/-- A value is kept under the id. -/
theorem settle_of_ok {w : Value} (hfailure : g.failure = none)
    (houtcome : s.evaluator.setting.conclude text g.held.memo = (.ok w, m)) :
    s.settle v id text g = (.ok w, ⟨g.held.values.insert id w, m⟩) := by
  unfold settle
  rw [hfailure, houtcome]

/-- A formula that is settled comes to an error and leaves the values as they are,
or its value is put in place. -/
theorem settle_cases (s : Sheet) (v : Variable) (id : String) (text : List Char) (g : Gathering) :
    (∃ cause, (s.settle v id text g).1 = .error cause ∧
      (s.settle v id text g).2.values = g.held.values) ∨
    ∃ value, (s.settle v id text g).1 = .ok value ∧
      (s.settle v id text g).2.values = g.held.values.insert id value := by
  unfold settle
  dsimp only
  split
  · exact .inl ⟨_, rfl, rfl⟩
  · exact .inl ⟨_, rfl, rfl⟩
  · exact .inr ⟨_, rfl, rfl⟩

end Settle

/-- A preorder that reading respects, looking up a name respects. -/
theorem lookUp_respects {s : Sheet} {read : Reader} {R : Held → Held → Prop}
    (refl : ∀ h, R h h) (hread : ∀ id h, R h (read id h).2) (name : String) (g : Gathering) :
    R g.held (s.lookUp read name g).2.held := by
  cases hname : s.names.get? name with
  | none =>
      rw [lookUp_of_unknown hname]
      exact refl _
  | some id =>
      cases hfailure : g.failure with
      | some e =>
          rw [lookUp_of_failed hfailure]
          exact refl _
      | none =>
          have step := hread id g.held
          rcases hresult : read id g.held with ⟨result, held⟩
          rw [hresult] at step
          cases result with
          | error e =>
              rw [lookUp_of_error hname hfailure hresult]
              exact step
          | ok v =>
              rw [lookUp_of_ok hname hfailure hresult]
              exact step

/-- Looking up a name only adds values. -/
theorem lookUp_grows {s : Sheet} {read : Reader} {stack : List String}
    (hread : ∀ id h, Grows s stack h (read id h).2) (name : String) (g : Gathering) :
    Grows s stack g.held (s.lookUp read name g).2.held :=
  lookUp_respects (.refl s stack) hread name g

/-- Filling in an outline only adds values. -/
theorem fill_grows {s : Sheet} {read : Reader} (stack : List String)
    (hread : ∀ id h, Grows s stack h (read id h).2) (o : Outline) (g : Gathering) :
    Grows s stack g.held (o.fill (s.lookUp read) g).2.held :=
  Outline.fill_respects (R := fun g g' => Grows s stack g.held g'.held)
    (fun g => .refl s stack g.held) Grows.trans (lookUp_grows hread) o g

/-- A formula that is evaluated adds at most the value of its variable to what
its references left. -/
theorem settle_grows {s : Sheet} (stack : List String) {v : Variable} {id : String}
    (text : List Char) (g : Gathering) (derived : s.isDerived id = true) (off : id ∉ stack)
    (free : g.held.values.get? id = none) : Grows s stack g.held (s.settle v id text g).2 := by
  have le := s.evaluator.setting.conclude_le_drawn text g.held.memo
  unfold settle
  dsimp only
  split
  · exact .memo s stack g.held le
  · exact .memo s stack g.held le
  · refine ⟨?_, ?_, le⟩
    · intro other w held
      have ne : id ≠ other := by
        intro eq
        subst eq
        rw [free] at held
        cases held
      rw [Table.get?_insert, if_neg ne]
      exact held
    · intro other w held
      rw [Table.get?_insert] at held
      split at held
      · rename_i eq
        exact .inr (eq ▸ ⟨derived, off⟩)
      · exact .inl held

/-- Every read only adds to what is held. -/
theorem readFrom_grows (s : Sheet) (room : Nat) (stack : List String) (id : String) (h : Held) :
    Grows s stack h (s.readFrom room stack id h).2 := by
  induction room generalizing stack id h with
  | zero => exact .refl s stack h
  | succ room ih =>
      apply readFrom_cases (P := fun r => Grows s stack h r.2)
      case unknown | held | source | on =>
        intros
        exact .refl s stack h
      case off =>
        intro v formula hv hformula free off
        have inner := fill_grows (id :: stack)
          (fun other held => ih (id :: stack) other held) (bodyOf formula) ⟨h, none⟩
        refine inner.pop.trans (settle_grows stack _ _ (isDerived_of_formula hv hformula) off ?_)
        exact inner.get?_eq_none List.mem_cons_self free

/-- A preorder that settling formulas respects, reading respects. -/
theorem readFrom_respects {s : Sheet} {R : Held → Held → Prop} (refl : ∀ h, R h h)
    (trans : ∀ {f g h}, R f g → R g h → R f h)
    (hsettle : ∀ v id text g, R g.held (s.settle v id text g).2)
    (room : Nat) (stack : List String) (id : String) (h : Held) :
    R h (s.readFrom room stack id h).2 := by
  induction room generalizing stack id h with
  | zero => exact refl h
  | succ room ih =>
      apply readFrom_cases (P := fun r => R h r.2)
      case unknown | held | source | on =>
        intros
        exact refl h
      case off =>
        intro v formula _ _ _ _
        have inner := Outline.fill_respects
          (R := fun g g' : Gathering => R g.held g'.held) (fun g => refl g.held) trans
          (lookUp_respects (s := s) refl (ih (id :: stack))) (bodyOf formula) ⟨h, none⟩
        exact trans inner (hsettle v id _ _)

/-- A count never falls, and where it stays as it is `Q` holds. -/
structure Quietly {α : Type} (count : α → Nat) (Q : α → α → Prop) (a b : α) : Prop where
  le : count a ≤ count b
  quiet : count b = count a → Q a b

section Quietly

variable {α : Type} {count : α → Nat} {Q : α → α → Prop}

/-- From a state to itself nothing is counted. -/
theorem Quietly.refl (h : ∀ a, Q a a) (a : α) : Quietly count Q a a :=
  ⟨Nat.le_refl _, fun _ => h a⟩

/-- Two quiet steps are quiet together, where `Q` can be chained. -/
theorem Quietly.trans {a b c : α} (first : Quietly count Q a b) (second : Quietly count Q b c)
    (h : Q a b → Q b c → Q a c) : Quietly count Q a c := by
  have le₁ := first.le
  have le₂ := second.le
  exact ⟨Nat.le_trans le₁ le₂, fun same =>
    h (first.quiet (by omega)) (second.quiet (by omega))⟩

end Quietly

/-- What concluding a text without a draw respects, reading without a draw
respects. -/
theorem readFrom_quietly {s : Sheet} {Q : Memo → Memo → Prop} (refl : ∀ m, Q m m)
    (trans : ∀ {a b c}, Q a b → Q b c → Q a c)
    (conclude : ∀ text m,
      (s.evaluator.setting.conclude text m).2.random.drawn = m.random.drawn →
        Q m (s.evaluator.setting.conclude text m).2)
    (room : Nat) (stack : List String) (id : String) (h : Held) :
    Quietly (fun h : Held => h.memo.random.drawn) (fun h h' => Q h.memo h'.memo) h
      (s.readFrom room stack id h).2 := by
  refine readFrom_respects
    (R := Quietly (fun h : Held => h.memo.random.drawn) fun h h' => Q h.memo h'.memo)
    (.refl fun h => refl h.memo) (fun first second => first.trans second trans)
    (fun v id text g => ?_) room stack id h
  constructor <;> rw [memo_settle]
  · exact s.evaluator.setting.conclude_le_drawn text g.held.memo
  · exact conclude text g.held.memo

/-- Without a draw reading leaves the source of random numbers as it was. -/
theorem readFrom_random (s : Sheet) (room : Nat) (stack : List String) (id : String) (h : Held)
    (quiet : (s.readFrom room stack id h).2.memo.random.drawn = h.memo.random.drawn) :
    (s.readFrom room stack id h).2.memo.random = h.memo.random :=
  (readFrom_quietly (Q := fun m m' => m'.random = m.random) (fun _ => rfl)
    (fun first second => second.trans first) (fun _ _ => Setting.conclude_random)
    room stack id h).quiet quiet

section Read

variable (s : Sheet) (id : String)

/-- A read from outside has nothing on its stack. -/
theorem fst_read : (s.read id).1 = (s.readFrom (s.size + 1) [] id s.held).1 := by
  rw [read]

/-- What a read leaves is what the recursion leaves. -/
theorem held_read : (s.read id).2.held = (s.readFrom (s.size + 1) [] id s.held).2 := by
  rw [read]
  rfl

end Read

/-- A read from outside only adds to what the sheet holds. -/
theorem read_grows (s : Sheet) (id : String) : Grows s [] s.held (s.read id).2.held := by
  rw [held_read]
  exact s.readFrom_grows (s.size + 1) [] id s.held

end Sheet

end FormulaSheet
