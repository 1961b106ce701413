import FormulaSheet.Proofs.Visits

/-!
# Formulas with a reference that cannot be read

The references of a formula are read up to the first that fails, and that failure is
what is reported.  The formula is evaluated all the same, for the sake of nothing but
its message, which is dropped: what stands before the failing reference has its values
in place, the rest is as it was written.  A call in this text that can be made is made,
and may draw a random number, unless the result of the text is remembered.

So the source of random numbers is left where reading the references in order leaves
it, and then moved on by what is evaluated in vain.

* `Sheet.readEach` — reading variables in order up to the first failure;
* `Sheet.BreaksOff` — the text of a formula whose reading breaks off;
* `Sheet.fill_eq_readEach`, `Sheet.fill_breaksOff` — what substitution comes to then;
* `Sheet.Reaches.read_unreadable` — what a read leaves.
-/

namespace FormulaSheet

namespace Sheet

variable {s : Sheet} {read : Reader} {id : String} {h h' left : Held} {cause : SheetError}

/-- Reads variables in order, up to and including the first that fails. -/
def readEach (read : Reader) : List String → Held → Option SheetError × Held
  | [], h => (none, h)
  | id :: ids, h =>
    match read id h with
    | (.ok _, h) => readEach read ids h
    | (.error cause, h) => (some cause, h)

section ReadEach

variable {ids ids' : List String}

/-- After an id that can be read the others are. -/
theorem readEach_of_ok {w : Value} (hread : read id h = (.ok w, h')) :
    readEach read (id :: ids) h = readEach read ids h' := by
  rw [readEach, hread]

/-- An id that cannot be read ends it. -/
theorem readEach_of_error (hread : read id h = (.error cause, h')) :
    readEach read (id :: ids) h = (some cause, h') := by
  rw [readEach, hread]

/-- After a failure the rest is not read. -/
theorem readEach_append_of_failed (failed : readEach read ids h = (some cause, left)) :
    readEach read (ids ++ ids') h = (some cause, left) := by
  induction ids generalizing h with
  | nil => cases failed
  | cons id ids ih =>
      rw [List.cons_append, readEach]
      rw [readEach] at failed
      split
      · rename_i hread
        rw [hread] at failed
        exact ih failed
      · rename_i hread
        rwa [hread] at failed

/-- Without a failure the rest is read after it. -/
theorem readEach_append_of_ok (ok : readEach read ids h = (none, h')) :
    readEach read (ids ++ ids') h = readEach read ids' h' := by
  induction ids generalizing h with
  | nil =>
      cases ok
      rfl
  | cons id ids ih =>
      rw [List.cons_append, readEach]
      rw [readEach] at ok
      split
      · rename_i hread
        rw [hread] at ok
        exact ih ok
      · rename_i hread
        rw [hread] at ok
        cases ok

end ReadEach

/-- A reader only adds values; what it has answered is shown, and is its answer from
then on, without effect. -/
structure Retains (s : Sheet) (read : Reader) : Prop where
  grows : ∀ id h, Grows s [] h (read id h).2
  shows : ∀ {id h w h'}, read id h = (.ok w, h') → (h'.values.get? id).getD .null = w
  again : ∀ {id h w h' later}, read id h = (.ok w, h') → Grows s [] h' later →
    read id later = (.ok w, later)

/-- An answer is the value that is held then, or null for a source without one. -/
theorem answer_of_readFrom {room : Nat} {stack : List String} {w : Value}
    (hread : s.readFrom (room + 1) stack id h = (.ok w, h')) :
    ∃ v, s.definitions.get? id = some v ∧ (h'.values.get? id = some w ∨
      v.formula = none ∧ h'.values.get? id = none ∧ w = .null) := by
  revert hread
  apply readFrom_cases (P := fun r => r = (.ok w, h') →
    ∃ v, s.definitions.get? id = some v ∧ (h'.values.get? id = some w ∨
      v.formula = none ∧ h'.values.get? id = none ∧ w = .null))
  case unknown => rintro _ ⟨⟩
  case held =>
    rintro v w hv hw ⟨⟩
    exact ⟨v, hv, .inl hw⟩
  case source =>
    rintro v hv hformula hw ⟨⟩
    exact ⟨v, hv, .inr ⟨hformula, hw, rfl⟩⟩
  case on => rintro v formula _ _ _ _ ⟨⟩
  case off =>
    intro v formula hv hformula _ _ hread
    refine ⟨v, hv, .inl ?_⟩
    rcases s.settle_cases v id _ _ with ⟨cause, failed, _⟩ | ⟨value, ok, placed⟩
    · rw [hread] at failed
      cases failed
    · rw [hread] at ok placed
      cases ok
      rw [placed, Table.get?_insert, if_pos rfl]

/-- Reads of any depth retain what is there. -/
theorem retains_readFrom (s : Sheet) (room : Nat) (stack : List String) :
    Retains s (s.readFrom room stack) where
  grows := fun id h => (s.readFrom_grows room stack id h).of_nil
  shows := by
    intro id h w h' hread
    cases room with
    | zero => cases hread
    | succ room =>
        obtain ⟨v, _, hw | ⟨_, hw, rfl⟩⟩ := answer_of_readFrom hread <;> rw [hw] <;> rfl
  again := by
    intro id h w h' later hread grows
    cases room with
    | zero => cases hread
    | succ room =>
        obtain ⟨v, hv, hw | ⟨hformula, hw, rfl⟩⟩ := answer_of_readFrom hread
        · exact readFrom_of_held hv (grows.keeps hw)
        · rw [readFrom_of_source hv hformula,
            grows.get?_source (isDerived_of_source hv hformula), hw]
          rfl

namespace Retains

variable {ids : List String}

/-- Reading several ids only adds values. -/
theorem readEach_grows (hread : Retains s read) (ids : List String) (h : Held) :
    Grows s [] h (readEach read ids h).2 := by
  induction ids generalizing h with
  | nil => exact .refl s [] h
  | cons id ids ih =>
      have step := hread.grows id h
      rcases hresult : read id h with ⟨answer, h'⟩
      rw [hresult] at step
      cases answer with
      | ok w =>
          rw [readEach_of_ok hresult]
          exact step.trans (ih h')
      | error cause =>
          rw [readEach_of_error hresult]
          exact step

/-- What was read in order is read again without effect. -/
theorem read_of_readEach (hread : Retains s read) (ok : readEach read ids h = (none, h'))
    (among : id ∈ ids) : ∃ w, read id h' = (.ok w, h') := by
  induction ids generalizing h with
  | nil => cases among
  | cons first ids ih =>
      rcases hresult : read first h with ⟨answer, middle⟩
      cases answer with
      | error cause =>
          rw [readEach_of_error hresult] at ok
          cases ok
      | ok w =>
          rw [readEach_of_ok hresult] at ok
          rcases List.mem_cons.mp among with rfl | among
          · have later := hread.readEach_grows ids middle
            rw [ok] at later
            exact ⟨w, hread.again hresult later⟩
          · exact ih ok among

/-- So repetitions make no difference. -/
theorem readEach_references (hread : Retains s read) (o : Outline) (h : Held) :
    readEach read (o.references.filterMap s.names.get?) h =
      readEach read (o.mentions.filterMap s.names.get?) h := by
  rw [Outline.references_eq]
  induction o.mentions using List.reverseRecOn with
  | nil => rfl
  | append_singleton names name ih =>
      rw [Outline.eraseDups_concat, List.filterMap_append]
      split
      · -- the name was met before
        rename_i known
        rw [ih]
        rcases hresult : readEach read (names.filterMap s.names.get?) h with ⟨failure, h'⟩
        cases failure with
        | some cause => rw [readEach_append_of_failed hresult]
        | none =>
            rw [readEach_append_of_ok hresult, List.filterMap_cons]
            cases hname : s.names.get? name with
            | none => rfl
            | some other =>
                obtain ⟨w, again⟩ := hread.read_of_readEach hresult
                  (List.mem_filterMap.mpr ⟨name, known, hname⟩)
                rw [readEach_of_ok again]
                rfl
      · rw [List.filterMap_append]
        rcases hresult : readEach read (names.filterMap s.names.get?) h with ⟨failure, h'⟩
        rw [hresult] at ih
        cases failure with
        | some cause => rw [readEach_append_of_failed hresult, readEach_append_of_failed ih]
        | none => rw [readEach_append_of_ok hresult, readEach_append_of_ok ih]

end Retains

section Fill

/-- Substitution reads what is mentioned in order, up to the first failure. -/
theorem fill_eq_readEach (read : Reader) (o : Outline) (h : Held) :
    (o.fill (s.lookUp read) ⟨h, none⟩).2 =
      ⟨(readEach read (o.mentions.filterMap s.names.get?) h).2,
        (readEach read (o.mentions.filterMap s.names.get?) h).1⟩ := by
  induction o generalizing h with
  | nil => rfl
  | cons p ps ih =>
      cases p with
      | callee w => exact ih h
      | plain i => exact ih h
      | reference w =>
          have mentions : Outline.mentions (.reference w :: ps) =
              String.ofList w :: Outline.mentions ps := rfl
          dsimp only [Outline.fill]
          rw [mentions, List.filterMap_cons]
          cases hname : s.names.get? (String.ofList w) with
          | none =>
              rw [lookUp_of_unknown hname]
              exact ih h
          | some other =>
              dsimp only
              rcases hresult : read other h with ⟨answer, h'⟩
              cases answer with
              | ok value =>
                  rw [lookUp_of_ok hname rfl hresult, readEach_of_ok hresult]
                  exact ih h'
              | error cause =>
                  rw [lookUp_of_error hname rfl hresult, readEach_of_error hresult,
                    fill_of_failed ps rfl]

/-- After a failure everything is left as it was written. -/
theorem text_fill_of_failed (read : Reader) (o : Outline) {g : Gathering}
    (hg : g.failure = some cause) : (o.fill (s.lookUp read) g).1 = o.text := by
  induction o with
  | nil => rfl
  | cons p ps ih =>
      cases p with
      | callee w => exact congrArg (w ++ ·) ih
      | plain i => exact congrArg (i.text ++ ·) ih
      | reference w =>
          rw [Outline.fill, lookUp_of_failed hg]
          exact congrArg (w ++ ·) ih

/-- The text of an outline whose reading breaks off at a reference that fails: what is
before has the values that were read in place, and the rest stays. -/
inductive BreaksOff (s : Sheet) (read : Reader) (h : Held) (cause : SheetError) (left : Held) :
    Outline → List Char → Prop
  | reference {before after : Outline} {w : List Char} {other : String} {middle : Held} :
      readEach read (before.mentions.filterMap s.names.get?) h = (none, middle) →
      s.names.get? (String.ofList w) = some other → read other middle = (.error cause, left) →
      BreaksOff s read h cause left (before ++ .reference w :: after)
        (before.textWith (s.shown middle.values) ++ w ++ after.text)

/-- What is before may be more, if that was read. -/
theorem BreaksOff.cons {o : Outline} {text : List Char} {p : Piece} {shows : List Char}
    (hread : Retains s read) (hbreaks : s.BreaksOff read h' cause left o text)
    (first : readEach read (Outline.mentions [p] |>.filterMap s.names.get?) h = (none, h'))
    (shown : ∀ later, Grows s [] h' later →
      Outline.textWith (s.shown later.values) [p] = shows) :
    s.BreaksOff read h cause left (p :: o) (shows ++ text) := by
  cases hbreaks with
  | @reference before after w other middle ok hname failed =>
      have grows := hread.readEach_grows (before.mentions.filterMap s.names.get?) h'
      rw [ok] at grows
      have parts : ∀ value? : String → Option Value, Outline.textWith value? (p :: before) =
          Outline.textWith value? [p] ++ Outline.textWith value? before := by
        intro value?
        cases p <;> simp [Outline.textWith]
      have whole : readEach read ((Outline.mentions (p :: before)).filterMap s.names.get?) h =
          (none, middle) := by
        have split : Outline.mentions (p :: before) =
            Outline.mentions [p] ++ Outline.mentions before :=
          List.filterMap_append (l := [p])
        rw [split, List.filterMap_append, readEach_append_of_ok first, ok]
      have text : s.BreaksOff read h cause left (p :: before ++ .reference w :: after) _ :=
        .reference whole hname failed
      rw [parts, shown middle grows] at text
      simpa only [List.append_assoc, List.cons_append] using text

/-- Where reading the references of an outline fails, its text breaks off. -/
theorem fill_breaksOff (hread : Retains s read) {o : Outline}
    (failed : readEach read (o.mentions.filterMap s.names.get?) h = (some cause, left)) :
    s.BreaksOff read h cause left o (o.fill (s.lookUp read) ⟨h, none⟩).1 := by
  induction o generalizing h with
  | nil => cases failed
  | cons p ps ih =>
      cases p with
      | callee w => exact (ih failed).cons hread rfl fun _ _ => List.append_nil w
      | plain i => exact (ih failed).cons hread rfl fun _ _ => List.append_nil i.text
      | reference w =>
          have mentions : ∀ ps, Outline.mentions (.reference w :: ps) =
              String.ofList w :: Outline.mentions ps := fun _ => rfl
          rw [mentions, List.filterMap_cons] at failed
          dsimp only [Outline.fill]
          cases hname : s.names.get? (String.ofList w) with
          | none =>
              rw [hname] at failed
              rw [lookUp_of_unknown hname]
              refine (ih failed).cons hread ?_ ?_
              · rw [mentions, List.filterMap_cons, hname]
                rfl
              · intro later _
                rw [Outline.textWith, shown, hname]
                exact List.append_nil w
          | some other =>
              rw [hname] at failed
              dsimp only at failed
              rcases hresult : read other h with ⟨answer, h'⟩
              cases answer with
              | error cause' =>
                  rw [readEach_of_error hresult] at failed
                  cases failed
                  rw [lookUp_of_error hname rfl hresult, text_fill_of_failed read ps rfl]
                  change s.BreaksOff read h _ _ ([] ++ .reference w :: ps)
                    ([] ++ w ++ Outline.text ps)
                  exact .reference rfl hname hresult
              | ok value =>
                  rw [readEach_of_ok hresult] at failed
                  rw [lookUp_of_ok hname rfl hresult]
                  refine (ih failed).cons hread ?_ ?_
                  · rw [mentions, List.filterMap_cons, hname]
                    exact readEach_of_ok hresult
                  · intro later grows
                    rw [Outline.textWith, shown, hname, Option.map_some,
                      hread.shows (hread.again hresult grows)]
                    exact List.append_nil _

end Fill

/-- Reading from outside in order, as reads of the sheet. -/
def readUpTo : List String → Sheet → Option SheetError × Sheet
  | [], s => (none, s)
  | id :: ids, s =>
    match s.read id with
    | (.ok _, s) => readUpTo ids s
    | (.error cause, s) => (some cause, s)

/-- Reads in turn are those of the recursion, one after another. -/
theorem readUpTo_withHeld (s : Sheet) (ids : List String) (h : Held) :
    readUpTo ids (s.withHeld h) = ((readEach (s.readFrom (s.size + 1) []) ids h).1,
      s.withHeld (readEach (s.readFrom (s.size + 1) []) ids h).2) := by
  induction ids generalizing h with
  | nil => rfl
  | cons id ids ih =>
      have step : (s.withHeld h).read id = ((s.readFrom (s.size + 1) [] id h).1,
          s.withHeld (s.readFrom (s.size + 1) [] id h).2) := by
        have reads : (s.withHeld h).readFrom (s.size + 1) [] = s.readFrom (s.size + 1) [] :=
          readFrom_congr (s := s) (t := s.withHeld h) rfl rfl rfl _ _
        have size : (s.withHeld h).size = s.size := rfl
        have held : (s.withHeld h).held = h := rfl
        rw [Sheet.read, size, reads, held]
        rfl
      rw [readUpTo, readEach, step]
      rcases s.readFrom (s.size + 1) [] id h with ⟨answer, h'⟩
      cases answer with
      | ok w => exact ih h'
      | error cause => rfl

/-- What is read is all that matters of a reader. -/
theorem readEach_congr {read' : Reader} {ids : List String}
    (same : ∀ id ∈ ids, read id = read' id) (h : Held) :
    readEach read ids h = readEach read' ids h := by
  induction ids generalizing h with
  | nil => rfl
  | cons id ids ih =>
      obtain ⟨here, later⟩ := List.forall_mem_cons.mp same
      rw [readEach, readEach, here]
      split
      · exact ih later _
      · rfl

/-- **A formula with a reference that cannot be read is evaluated in vain.**  If in
reading in order what a formula depends on one fails, its failure is what the read
comes to, and the values are those that were read by then.  What is left of the text
is evaluated from there: the source of random numbers is where the reading of the
references leaves it if the outcome of the text is remembered, and else where its
reduction leaves it from there.  For an id that is on no cycle the references read as
from outside. -/
theorem Reaches.read_unreadable {allowed : Sheet → Operation → Prop} {e : Evaluator}
    (reached : Reaches allowed (ofEvaluator e) s) {v : Variable} {formula : String}
    (hv : s.definitions.get? id = some v) (hformula : v.formula = some formula)
    (free : s.values.get? id = none)
    (failed : readEach (s.readFrom s.size [id]) (s.dependenciesOf id) s.held =
      (some cause, left)) :
    (s.read id).1 = .error cause ∧ (s.read id).2.values = left.values ∧
    (∃ text, s.BreaksOff (s.readFrom s.size [id]) s.held cause left (bodyOf formula) text ∧
      (s.read id).2.evaluator.memo = (s.evaluator.setting.conclude text left.memo).2 ∧
      (s.read id).2.evaluator.memo.random =
        if (left.memo.results.get? (String.ofList text)).isSome then left.memo.random
        else (Run.from (s.evaluator.setting.reduce text) left.memo.random).2) ∧
    (¬ s.dependencies.Path id id →
      readUpTo (s.dependenciesOf id) s = (some cause, s.withHeld left)) := by
  have hs := reached.consistent
  have hread := retains_readFrom s s.size [id]
  have mentioned : readEach (s.readFrom s.size [id])
      ((bodyOf formula).mentions.filterMap s.names.get?) s.held = (some cause, left) := by
    rw [← failed, hs.dependenciesOf_eq hv hformula, FormulaSheet.dependenciesOf,
      Outline.dependencies, hread.readEach_references, ← Outline.mentions_formulaBody]
    rfl
  have filled := fill_eq_readEach (s := s) (s.readFrom s.size [id]) (bodyOf formula) s.held
  rw [mentioned] at filled
  have whole : s.readFrom (s.size + 1) [] id s.held = _ :=
    readFrom_of_off hv hformula free List.not_mem_nil
  rw [filled, settle_of_failed rfl] at whole
  have text := fill_breaksOff hread mentioned
  generalize ((bodyOf formula).fill (s.lookUp (s.readFrom s.size [id])) ⟨s.held, none⟩).1 = rest
    at whole text
  have answer := fst_read s id
  have result := held_read s id
  rw [whole] at answer result
  have memo : (s.read id).2.evaluator.memo = (s.evaluator.setting.conclude rest left.memo).2 :=
    congrArg Held.memo result
  have values : (s.read id).2.held.values = left.values := by rw [result]
  refine ⟨answer, values, ⟨rest, text, memo, ?_⟩, ?_⟩
  · rw [memo]
    split
    · rename_i remembered
      obtain ⟨outcome, hit⟩ := Option.isSome_iff_exists.mp remembered
      rw [Setting.conclude_of_some hit]
    · rename_i fresh
      rw [Setting.conclude_of_none (Option.not_isSome_iff_eq_none.mp fresh)]
  · intro acyclic
    rw [Graph.Path, hs.edge_dependencies] at acyclic
    have outside : ∀ other ∈ s.dependenciesOf id,
        s.readFrom s.size [id] other = s.readFrom (s.size + 1) [] other :=
      fun other hother => readFrom_of_refersTo acyclic (hs.mem_next_dependencies.mp hother)
    have same := readUpTo_withHeld s (s.dependenciesOf id) s.held
    rw [← readEach_congr outside, failed] at same
    exact same

/-- The seed that is left. -/
def seed (s : Sheet) : Option Nat := s.evaluator.memo.random.seed

/-- An evaluator whose sequence of random numbers begins with 42. -/
def seededEvaluator : Evaluator :=
  .create .still .builtins { Context.empty with seed := some 42 }

/-- A gate that calls a function that is not there, and one that adds it to a random
number. -/
def noisySheet : Sheet :=
  ((ofEvaluator seededEvaluator).apply (.register (gate "fault" "NOPE()"))).apply
    (.register (gate "noisy" "RANDOM() + fault"))

/-- The noisy sheet is reached by operations. -/
theorem noisySheet_reached : Reaches (fun _ _ => True) (ofEvaluator seededEvaluator) noisySheet :=
  .step (.step .start trivial) trivial

/-- The read of the one draws in vain; the next finds the outcome of its text
remembered, and draws no more. -/
theorem read_unreadable_noisySheet :
    (∃ cause left, (noisySheet.read "noisy").1 = .error cause ∧
      (noisySheet.read "noisy").2.values = left.values ∧
      readUpTo ["fault"] noisySheet = (some cause, noisySheet.withHeld left) ∧
      left.memo.random.seed = some 42) ∧
    (noisySheet.read "noisy").2.seed = some 206659 ∧
    ((noisySheet.read "noisy").2.read "noisy").2.seed = some 206659 := by
  have formula : (noisySheet.definitions.get? "noisy").bind (·.formula) =
      some "RANDOM() + fault" := by
    decide +kernel
  obtain ⟨v, hv, hformula⟩ := Option.bind_eq_some_iff.mp formula
  have names : noisySheet.dependenciesOf "noisy" = ["fault"] := by decide +kernel
  have fails : (readEach (noisySheet.readFrom noisySheet.size ["noisy"])
      (noisySheet.dependenciesOf "noisy") noisySheet.held).1.isSome = true := by
    decide +kernel
  have seed : (readEach (noisySheet.readFrom noisySheet.size ["noisy"])
      (noisySheet.dependenciesOf "noisy") noisySheet.held).2.memo.random.seed = some 42 := by
    decide +kernel
  refine ⟨?_, by decide +kernel, by decide +kernel⟩
  rcases hread : readEach (noisySheet.readFrom noisySheet.size ["noisy"])
    (noisySheet.dependenciesOf "noisy") noisySheet.held with ⟨failure, left⟩
  rw [hread] at fails seed
  obtain ⟨cause, rfl⟩ := Option.isSome_iff_exists.mp fails
  obtain ⟨answer, values, -, outside⟩ :=
    Reaches.read_unreadable noisySheet_reached hv hformula rfl hread
  have acyclic : ¬ noisySheet.dependencies.Path "noisy" "noisy" :=
    (Graph.grounded_of_cycleFrom? (by decide +kernel)).not_path_self
  rw [names] at outside
  exact ⟨cause, left, answer, values, outside acyclic, seed⟩

/-- A formula with a reference that cannot be read can draw all the same: reading what
it depends on leaves the seed, and reading it does not. -/
theorem seed_of_noisySheet :
    Reaches (fun _ _ => True) (ofEvaluator seededEvaluator) noisySheet ∧
    noisySheet.seed = some 42 ∧ noisySheet.isDerived "noisy" = true ∧
    (noisySheet.values.get? "noisy").isNone = true ∧
    noisySheet.dependenciesOf "noisy" = ["fault"] ∧
    (readUpTo (noisySheet.dependenciesOf "noisy") noisySheet).1.isSome = true ∧
    (readUpTo (noisySheet.dependenciesOf "noisy") noisySheet).2.seed = some 42 ∧
    (noisySheet.read "noisy").2.seed ≠
      (readUpTo (noisySheet.dependenciesOf "noisy") noisySheet).2.seed :=
  ⟨noisySheet_reached, by decide +kernel, by decide +kernel, by decide +kernel,
    by decide +kernel, by decide +kernel, by decide +kernel, by decide +kernel⟩

end Sheet

end FormulaSheet
