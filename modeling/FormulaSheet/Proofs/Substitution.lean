import FormulaSheet.Proofs.Splices
import FormulaSheet.Proofs.Transparency

/-!
# What substitution leaves of a text

Substituting puts values in the place of references.  It records the names of
those, and they stand for the ids that the formula is registered to depend on,
whatever comes of its evaluation.

Around the values everything stays: each callee of the text is called still,
and the values call nothing themselves.  One thing can change all the same.  A
value whose literal begins with a minus sign comes in parentheses, and where a
reference that has no value stands right before it, the parentheses make a call
of the reference.

* `Evaluator.dependencies_evaluateFrom_eq` — what is recorded is what is
  referred to;
* `Slot`, `Outline.answered` — an outline with the values that take the place
  of references;
* `Slot.callees_items` — the calls of the text that comes of it;
* `Outline.callees_substitute_iff` — when these are the calls of the outline.
-/

namespace FormulaSheet

namespace Outline

theorem filter_addName (p : String → Bool) (names : List String) (name : String) :
    (addName names name).filter p =
      if p name then addName (names.filter p) name else names.filter p := by
  by_cases known : name ∈ names <;> by_cases passes : p name <;> simp [addName, known, passes]

/-- Substituting from a source that only answers records the names that it has
values for. -/
theorem snd_substitute_pure (source : String → Option Value) (o : Outline) :
    (Id.run (o.substitute fun name => pure (source name))).2 =
      o.references.filter fun name => (source name).isSome := by
  have go : ∀ (o : Outline) (out : List Char) (names : List String),
      (Id.run (substituteFrom (fun name => pure (source name)) out
          (names.filter fun name => (source name).isSome) o)).2 =
        ((o.mentions.foldl addName names).filter fun name => (source name).isSome).reverse := by
    intro o
    induction o with
    | nil => intro out names; rfl
    | cons p ps ih =>
        intro out names
        cases p with
        | reference w =>
            have next := filter_addName (fun name => (source name).isSome) names (String.ofList w)
            cases hv : source (String.ofList w) with
            | none =>
                simp only [hv, Option.isSome_none, Bool.false_eq_true, if_false] at next
                rw [substituteFrom, hv, ← next]
                exact ih _ (addName names (String.ofList w))
            | some v =>
                simp only [hv, Option.isSome_some, if_true] at next
                rw [substituteFrom, hv]
                simp only [pure_bind]
                rw [← next]
                exact ih _ (addName names (String.ofList w))
        | callee w => exact ih _ names
        | plain i => exact ih _ names
  rw [references, List.filter_reverse]
  exact go o [] []

end Outline

namespace Evaluator

/-- What an evaluation records is what the formula is registered to depend on,
however it ends: the ids of the recorded names are those that the text of the
formula refers to. -/
theorem dependencies_evaluateFrom_eq {names : Table String} {source : String → Option Value}
    (answers : ∀ name, (source name).isSome = (names.get? name).isSome) (e : Evaluator)
    (formula : String) :
    (e.evaluateFrom source formula).1.dependencies.map names.get? =
      (dependenciesOf names formula).map some := by
  have recorded : (e.evaluateFrom source formula).1.dependencies =
      (Outline.ofText (formulaBody formula.toList)).references.filter
        fun name => (names.get? name).isSome := by
    rw [evaluateFrom, Outline.snd_substitute_pure]
    exact congrArg (List.filter · _) (funext answers)
  rw [recorded, Outline.references_eq, Outline.mentions_formulaBody, ← Outline.references_eq,
    dependenciesOf, Outline.dependencies, List.map_filterMap_some_eq_filter_map_isSome,
    List.filter_map]
  rfl

/-- Two names with their ids. -/
def shareNames : Table String := .ofList [("parts", "v1"), ("total", "v2")]

/-- Both have the value two. -/
def shareSource (name : String) : Option Value := (shareNames.get? name).map fun _ => .number 2

/-- A formula that cannot be evaluated, and ends within quotes. -/
def brokenShares : String := " =2x total( -Größe+total*(parts 'total"

/-- The first result is remembered, and the second is a failure. -/
theorem dependencies_evaluateFrom_shares :
    laterEvaluator.memo.results.contains "NOW() / 2" = true ∧
    (laterEvaluator.evaluateFrom shareSource "= NOW() / parts").1.dependencies.map
      shareNames.get? = [some "v1"] ∧
    (laterEvaluator.evaluateFrom shareSource brokenShares).1.message?.isSome = true ∧
    (laterEvaluator.evaluateFrom shareSource brokenShares).1.dependencies.map
      shareNames.get? = [some "v2", some "v1"] := by
  have answers : ∀ name, (shareSource name).isSome = (shareNames.get? name).isSome :=
    fun _ => Option.isSome_map
  exact ⟨by decide +kernel,
    (dependencies_evaluateFrom_eq answers laterEvaluator _).trans (by decide +kernel),
    by decide +kernel,
    (dependencies_evaluateFrom_eq answers laterEvaluator _).trans (by decide +kernel)⟩

end Evaluator

namespace Piece

/-- Whether a point came before does not matter to what is no word. -/
theorem readFrom_of_noWordFirst {is : List Item} (h : Item.NoWordFirst is) (afterPoint : Bool) :
    readFrom afterPoint [] is = readFrom false [] is := by
  cases is with
  | nil => rfl
  | cons i is =>
      cases i with
      | word w => cases h _ rfl
      | mark c => rw [readFrom_mark, readFrom_mark]
      | hidden c => rw [readFrom_hidden, readFrom_hidden]

/-- Items that do not count call nothing. -/
theorem callees_append {afterPoint : Bool} {is : List Item}
    (h : Item.boundFrom afterPoint is = 0) (js : List Item) :
    (readFrom afterPoint [] (is ++ js)).filterMap callee? =
      (readFrom (Item.pointAfter afterPoint is) [] js).filterMap callee? := by
  induction is generalizing afterPoint with
  | nil => rfl
  | cons i is ih =>
      obtain ⟨here, rest⟩ := Nat.add_eq_zero_iff.mp h
      have none : (ofItem afterPoint i (is ++ js)).callee? = none := by
        rw [← bounds_ofItem afterPoint i (is ++ js)] at here
        cases eq : ofItem afterPoint i (is ++ js) with
        | callee w => rw [eq] at here; cases here
        | reference w => rfl
        | plain i => rfl
      rw [List.cons_append, readFrom_cons, List.filterMap_cons_none none, ih rest]
      rfl

/-- What a piece is if a parenthesis opens next, and if none does. -/
def facing (opened : Bool) : Piece → Piece
  | reference w => if opened then callee w else reference w
  | callee w => if opened then callee w else reference w
  | plain i => plain i

/-- A piece is sorted by what comes next. -/
theorem ofItem_eq_facing {afterPoint : Bool} {p : Piece} {next : List Item}
    (h : ofItem afterPoint p.item next = p) (next' : List Item) :
    ofItem afterPoint p.item next' = p.facing (opens next') := by
  cases p with
  | reference w =>
      simp only [item, ofItem, ofWord] at h ⊢
      split at h
      · cases h
      · rw [if_neg (by assumption), facing]
  | callee w =>
      simp only [item, ofItem, ofWord] at h ⊢
      split at h
      · cases h
      · rw [if_neg (by assumption), facing]
  | plain i =>
      cases i with
      | word w =>
          simp only [item, ofItem, ofWord] at h ⊢
          split at h
          · rw [if_pos (by assumption), facing]
          · split at h <;> cases h
      | mark c => rfl
      | hidden c => rfl

end Piece

namespace Value

/-- Whether the literal of a value begins with a minus sign. -/
def isSigned (v : Value) : Bool := v.literal.head? == some '-'

/-- A parenthesis opens first in the text of a value with a minus sign, and of
no other value. -/
theorem opens_splice (v : Value) (is : List Item) :
    Piece.opens (Item.ofText v.splice ++ is) = v.isSigned := by
  rcases v.ofText_splice with ⟨⟨cs, minus⟩, eq⟩ | ⟨plain, eq⟩
  · rw [eq, isSigned, minus]
    rfl
  · obtain ⟨c, cs, literal_eq, blank⟩ := v.exists_literal_eq_cons
    have unsigned : v.isSigned = false := by
      rw [isSigned, literal_eq]
      simpa using fun minus : c = '-' => plain cs (minus ▸ literal_eq)
    have count := v.bare_literal.bound
    rw [eq, unsigned]
    rw [literal_eq, Item.ofText, Item.readFrom_cons] at count ⊢
    generalize Item.readFrom (Quoting.after .code c) [] [] cs = more at count ⊢
    by_cases word : Character.isWord c = true
    · have first : Item.ofChar .code c = .word [c] := by simp [Item.ofChar, Quoting.hides, word]
      rw [first]
      cases more with
      | nil => rfl
      | cons i more => cases i <;> rfl
    · have first : Item.ofChar .code c = .mark c := by simp [Item.ofChar, Quoting.hides, word]
      rw [first] at count ⊢
      have other : c ≠ '(' := by
        rintro rfl
        have := (Nat.add_eq_zero_iff.mp count).1
        cases this
      simp [Item.meet, Piece.opens, Piece.isGap, blank, other]

/-- A value calls nothing. -/
theorem callees_splice (v : Value) {is : List Item} (first : Item.NoWordFirst is)
    (afterPoint : Bool) :
    (Piece.readFrom afterPoint [] (Item.ofText v.splice ++ is)).filterMap Piece.callee? =
      (Piece.readFrom false [] is).filterMap Piece.callee? := by
  have none : ∀ afterPoint, Item.boundFrom afterPoint (Item.ofText v.literal) = 0 := by
    intro afterPoint
    exact Nat.le_zero.mp (v.bare_literal.bound ▸ Item.boundFrom_le afterPoint _)
  rcases v.ofText_splice with ⟨-, eq⟩ | ⟨-, eq⟩
  · rw [eq, List.cons_append, List.append_assoc, Piece.readFrom_mark, List.filterMap_cons_none rfl,
      Piece.callees_append (none _), List.singleton_append, Piece.readFrom_mark,
      List.filterMap_cons_none rfl]
    rfl
  · rw [eq, Piece.callees_append (none _), Piece.readFrom_of_noWordFirst first]

end Value

/-- A piece of an outline, or the value that takes its place if it is a
reference. -/
inductive Slot where
  | kept (p : Piece)
  | filled (name : List Char) (v : Value)

namespace Slot

/-- The piece that was there. -/
def piece : Slot → Piece
  | kept p => p
  | filled w _ => .reference w

/-- The item that was there. -/
def item (s : Slot) : Item := s.piece.item

/-- The text that is there. -/
def text : Slot → List Char
  | kept p => p.text
  | filled _ v => v.splice

/-- The items that are there. -/
def items : Slot → List Item
  | kept p => [p.item]
  | filled _ v => Item.ofText v.splice

/-- Whether a value with a minus sign comes next, behind blanks or nothing. -/
def meetsSigned : List Slot → Bool
  | [] => false
  | kept p :: slots => Piece.isGap p.item && meetsSigned slots
  | filled _ v :: _ => v.isSigned

/-- The names that are called once the values are in place: those that were
called, and those without a value that a value with a minus sign comes next
to. -/
def callees : List Slot → List String
  | [] => []
  | kept (.callee w) :: slots => String.ofList w :: callees slots
  | kept (.reference w) :: slots =>
    if meetsSigned slots then String.ofList w :: callees slots else callees slots
  | kept (.plain _) :: slots => callees slots
  | filled _ _ :: slots => callees slots

end Slot

namespace Outline

variable {σ : Type}

/-- An outline with the values that `lookup` finds, asked for each reference
from left to right. -/
def answered (lookup : String → StateM σ (Option Value)) : Outline → σ → List Slot
  | [], _ => []
  | .reference w :: ps, g =>
    match lookup (String.ofList w) g with
    | (some v, g) => .filled w v :: answered lookup ps g
    | (none, g) => .kept (.reference w) :: answered lookup ps g
  | p :: ps, g => .kept p :: answered lookup ps g

theorem map_piece_answered (lookup : String → StateM σ (Option Value)) (o : Outline) (g : σ) :
    (o.answered lookup g).map Slot.piece = o := by
  induction o generalizing g with
  | nil => rfl
  | cons p ps ih =>
      cases p with
      | reference w =>
          rcases hfound : lookup (String.ofList w) g with ⟨value?, g'⟩
          cases value? <;> simp [answered, hfound, ih, Slot.piece]
      | callee w => simp [answered, ih, Slot.piece]
      | plain i => simp [answered, ih, Slot.piece]

/-- The values that are found are those that are substituted. -/
theorem fst_substitute (lookup : String → StateM σ (Option Value)) (o : Outline) (g : σ) :
    ((o.substitute lookup).run g).1.1 = (o.answered lookup g).flatMap Slot.text := by
  have fills : ∀ (o : Outline) (g : σ),
      (o.fill lookup g).1 = (o.answered lookup g).flatMap Slot.text := by
    intro o
    induction o with
    | nil => exact fun _ => rfl
    | cons p ps ih =>
        intro g
        cases p with
        | reference w =>
            rcases hfound : lookup (String.ofList w) g with ⟨value?, g'⟩
            cases value? <;> simp [answered, fill, hfound, ih, Slot.text, Piece.text]
        | callee w => simp [answered, fill, ih, Slot.text, Piece.text]
        | plain i => simp [answered, fill, ih, Slot.text, Piece.text]
  obtain ⟨names, run⟩ := substituteFrom_run lookup o [] [] g
  rw [substitute, run]
  exact fills o g

end Outline

namespace Slot

/-- What no word begins with begins with none once the values are in place. -/
theorem noWordFirst_items {slots : List Slot} (h : Item.NoWordFirst (slots.map item)) :
    Item.NoWordFirst (slots.flatMap items) := by
  cases slots with
  | nil => exact h
  | cons s slots =>
      cases s with
      | kept p => exact h
      | filled w v => cases h _ rfl

/-- The text is cut into the items of its parts: the words around a value are
kept apart by what stood beside the reference. -/
theorem readFrom_text {place : Quoting} {slots : List Slot}
    (h : Item.Fitting place (slots.map item)) :
    Item.readFrom place [] [] (slots.flatMap text) = slots.flatMap items := by
  induction slots generalizing place with
  | nil => rfl
  | cons s slots ih =>
      obtain ⟨hs, apart, rest⟩ := h
      rw [List.flatMap_cons, List.flatMap_cons, Item.readFrom_append_join]
      cases s with
      | kept p =>
          have same : (kept p).text = (kept p).item.text := (Piece.text_item p).symm
          rw [same, hs.readFrom, ih rest]
          exact Item.meet_eq_cons_iff.mpr (apart.imp_right noWordFirst_items)
      | filled w v =>
          have behind : place.afterAll (filled w v).item.text = .code :=
            Item.Fits.afterAll_word hs
          have first := noWordFirst_items (apart.resolve_left (by simp [item, piece, Piece.item,
            Item.isWord]))
          rw [behind] at rest
          obtain ⟨rfl, -, -⟩ := hs
          rw [text, v.closed_splice, ih rest]
          exact (Item.fitting_ofText v.splice).join_eq_append (.inr first)

/-- A parenthesis opens next if one did before, or if a value with a minus sign
comes next. -/
theorem opens_items (slots : List Slot) :
    Piece.opens (slots.flatMap items) =
      (Piece.opens (slots.map item) || meetsSigned slots) := by
  induction slots with
  | nil => rfl
  | cons s slots ih =>
      rw [List.flatMap_cons, List.map_cons]
      cases s with
      | kept p =>
          by_cases gap : Piece.isGap p.item = true
          · have past : ∀ is, Piece.opens (p.item :: is) = Piece.opens is := by
              intro is
              simp [Piece.opens, gap]
            rw [items, List.singleton_append, item, piece, past, past, ih, meetsSigned, gap,
              Bool.true_and]
          · simp [Piece.opens, items, item, piece, meetsSigned, gap]
      | filled w v =>
          have word : Piece.opens ((filled w v).item :: slots.map item) = false := rfl
          rw [word, Bool.false_or, items, v.opens_splice, meetsSigned]

/-- The calls of a text with the values in place. -/
theorem callees_items {afterPoint : Bool} {place : Quoting} {slots : List Slot}
    (fitting : Item.Fitting place (slots.map item))
    (sorted : Piece.readFrom afterPoint [] (slots.map item) = slots.map piece) :
    (Piece.readFrom afterPoint [] (slots.flatMap items)).filterMap Piece.callee? =
      callees slots := by
  induction slots generalizing afterPoint place with
  | nil => rfl
  | cons s slots ih =>
      obtain ⟨-, apart, fitting⟩ := fitting
      rw [List.map_cons, List.map_cons, Piece.readFrom_cons] at sorted
      obtain ⟨here, sorted⟩ := List.cons.inj sorted
      have rest := ih fitting sorted
      cases s with
      | kept p =>
          have opening := opens_items slots
          rw [List.flatMap_cons, items, List.singleton_append, Piece.readFrom_cons]
          change Piece.ofItem afterPoint p.item (slots.map item) = p at here
          have before := Piece.ofItem_eq_facing here (slots.map item)
          rw [here] at before
          rw [Piece.ofItem_eq_facing here, opening]
          cases p with
          | plain i => exact rest
          | callee w =>
              have opened : Piece.opens (slots.map item) = true := by
                simpa [Piece.facing] using before
              simp only [Piece.facing, opened, Bool.true_or, if_true]
              exact congrArg (String.ofList w :: ·) rest
          | reference w =>
              have closed : Piece.opens (slots.map item) = false := by
                simpa [Piece.facing] using before
              simp only [Piece.facing, closed, Bool.false_or, callees]
              cases meetsSigned slots with
              | true =>
                  rw [if_pos rfl, if_pos rfl]
                  exact congrArg (String.ofList w :: ·) rest
              | false =>
                  rw [if_neg (by simp), if_neg (by simp)]
                  exact rest
      | filled w v =>
          have first := noWordFirst_items (apart.resolve_left (by simp [item, piece, Piece.item,
            Item.isWord]))
          rw [List.flatMap_cons, items, callees, v.callees_splice first]
          exact rest

/-- Where a value with a minus sign comes next. -/
theorem meetsSigned_iff {slots : List Slot} : meetsSigned slots = true ↔
    ∃ (gap : List Char) (u : List Char) (v : Value) (back : List Slot),
      slots = gap.map (fun c => kept (.plain (.mark c))) ++ filled u v :: back ∧
        (∀ c ∈ gap, Character.isBlank c = true) ∧ v.isSigned = true := by
  induction slots with
  | nil => simp [meetsSigned]
  | cons s slots ih =>
      cases s with
      | filled w v =>
          constructor
          · exact fun signed => ⟨[], w, v, slots, rfl, by simp, signed⟩
          · rintro ⟨gap, u, v', back, eq, -, signed⟩
            cases gap with
            | nil =>
                cases eq
                exact signed
            | cons c gap => cases eq
      | kept p =>
          rw [meetsSigned, Bool.and_eq_true, ih]
          constructor
          · rintro ⟨blank, gap, u, v, back, rfl, blanks, signed⟩
            obtain ⟨c, rfl, hc⟩ : ∃ c, p = .plain (.mark c) ∧ Character.isBlank c = true := by
              cases p with
              | reference w => cases blank
              | callee w => cases blank
              | plain i =>
                  cases i with
                  | word w => cases blank
                  | mark c => exact ⟨c, rfl, blank⟩
                  | hidden c => cases blank
            exact ⟨c :: gap, u, v, back, rfl, List.forall_mem_cons.mpr ⟨hc, blanks⟩, signed⟩
          · rintro ⟨gap, u, v, back, eq, blanks, signed⟩
            cases gap with
            | nil => cases eq
            | cons c gap =>
                cases eq
                obtain ⟨blank, blanks⟩ := List.forall_mem_cons.mp blanks
                exact ⟨blank, gap, u, v, back, rfl, blanks, signed⟩

/-- What holds behind every reference that is kept holds behind the first slot if
that is one, and behind all the others. -/
theorem forall_kept_cons_iff {P : List Slot → Prop} {s : Slot} {slots : List Slot} :
    (∀ front w back, s :: slots = front ++ kept (.reference w) :: back → P back) ↔
      (∀ w, s = kept (.reference w) → P slots) ∧
        ∀ front w back, slots = front ++ kept (.reference w) :: back → P back := by
  constructor
  · intro all
    exact ⟨fun w eq => all [] w slots (by rw [eq]; rfl),
      fun front w back eq => all (s :: front) w back (by rw [eq]; rfl)⟩
  · rintro ⟨first, more⟩ front w back eq
    cases front with
    | nil =>
        cases eq
        exact first w rfl
    | cons t front =>
        cases eq
        exact more front w back rfl

/-- The calls of a text with values in place: those that were there, and more
exactly if a value with a minus sign comes next to a reference that is kept. -/
theorem callees_iff (slots : List Slot) :
    ((slots.map piece).filterMap Piece.callee?).Sublist (callees slots) ∧
      (callees slots = (slots.map piece).filterMap Piece.callee? ↔
        ∀ front w back, slots = front ++ kept (.reference w) :: back →
          meetsSigned back = false) := by
  induction slots with
  | nil => exact ⟨.slnil, by simp [callees]⟩
  | cons s slots ih =>
      obtain ⟨within, same⟩ := ih
      rw [forall_kept_cons_iff, ← same]
      cases s with
      | filled w v => exact ⟨within, fun eq => ⟨nofun, eq⟩, fun tame => tame.2⟩
      | kept p =>
          cases p with
          | plain i => exact ⟨within, fun eq => ⟨nofun, eq⟩, fun tame => tame.2⟩
          | callee w =>
              exact ⟨within.cons_cons _, fun eq => ⟨nofun, (List.cons.inj eq).2⟩,
                fun tame => congrArg (String.ofList w :: ·) tame.2⟩
          | reference w =>
              cases signed : meetsSigned slots with
              | false =>
                  have calls : callees (kept (.reference w) :: slots) = callees slots := by
                    rw [callees, if_neg (by simp [signed])]
                  rw [calls]
                  exact ⟨within, fun eq => ⟨fun _ _ => rfl, eq⟩, fun tame => tame.2⟩
              | true =>
                  have calls : callees (kept (.reference w) :: slots) =
                      String.ofList w :: callees slots := by
                    rw [callees, if_pos signed]
                  rw [calls]
                  refine ⟨within.cons _, ?_⟩
                  constructor
                  · intro eq
                    -- there is one call more than those that were there
                    have lengths := congrArg List.length eq
                    have most := within.length_le
                    simp only [List.length_cons] at lengths
                    exact absurd (lengths ▸ most) (Nat.not_succ_le_self _)
                  · rintro ⟨tame, -⟩
                    cases tame w rfl

end Slot

namespace Outline

variable {σ : Type}

/-- Substituting keeps every call.  It makes more of them only where a reference
that has no value stands, with blanks between or none, before one that has a
value with a minus sign. -/
theorem callees_substitute_iff (lookup : String → StateM σ (Option Value)) (g : σ)
    (cs : List Char) :
    (ofText cs).callees.Sublist (ofText (((ofText cs).substitute lookup).run g).1.1).callees ∧
    ((ofText (((ofText cs).substitute lookup).run g).1.1).callees = (ofText cs).callees ↔
      ∀ (front : List Slot) (w gap u : List Char) (v : Value) (back : List Slot),
        (ofText cs).answered lookup g = front ++ .kept (.reference w) ::
          (gap.map (fun c => .kept (.plain (.mark c))) ++ .filled u v :: back) →
        (∀ c ∈ gap, Character.isBlank c = true) → v.isSigned = false) := by
  have pieces := map_piece_answered lookup (ofText cs) g
  have items_eq : ((ofText cs).answered lookup g).map Slot.item = Item.ofText cs := by
    rw [← map_item_ofText]
    exact (List.map_map ..).symm.trans (congrArg (List.map Piece.item) pieces)
  have fitting := Item.fitting_ofText cs
  rw [← items_eq] at fitting
  have calls : (ofText (((ofText cs).substitute lookup).run g).1.1).callees =
      Slot.callees ((ofText cs).answered lookup g) := by
    rw [fst_substitute, ofText, Item.ofText, Slot.readFrom_text fitting]
    refine Slot.callees_items fitting ?_
    rw [items_eq, pieces]
    rfl
  obtain ⟨within, same⟩ := Slot.callees_iff ((ofText cs).answered lookup g)
  rw [pieces] at within same
  rw [calls]
  refine ⟨within, same.trans ⟨?_, ?_⟩⟩
  · intro tame front w gap u v back eq blanks
    have unmet := tame front w _ eq
    cases signed : v.isSigned with
    | false => rfl
    | true =>
        rw [Slot.meetsSigned_iff.mpr ⟨gap, u, v, back, rfl, blanks, signed⟩] at unmet
        cases unmet
  · intro tame front w back eq
    cases met : Slot.meetsSigned back with
    | false => rfl
    | true =>
        obtain ⟨gap, u, v, rest, rfl, blanks, signed⟩ := Slot.meetsSigned_iff.mp met
        rw [tame front w gap u v rest eq blanks] at signed
        cases signed

/-- The word before a variable is called if the variable is negative, and is a
mere reference otherwise. -/
theorem callees_substitute_negative :
    let cs := "IF(true, 1, RANDOM b)".toList
    let lookup (v : Value) (name : String) : StateM Unit (Option Value) :=
      pure (if name = "b" then some v else none)
    (ofText cs).callees = ["IF"] ∧
    (ofText (((ofText cs).substitute (lookup (.number 1))).run ()).1.1).callees = ["IF"] ∧
    (ofText (((ofText cs).substitute (lookup (.number (-1)))).run ()).1.1).callees =
      ["IF", "RANDOM"] := by
  decide +kernel

end Outline

end FormulaSheet
