import FormulaSheet.Proofs.Brackets
import FormulaSheet.Proofs.Draws
import FormulaSheet.Proofs.Splices

/-!
# Resolving calls comes to an end

Each call that is resolved changes the text, and the new text is searched
again.  Its calls need not be fewer: `H F(0)` has one call, and so has
`H (-2)`, which it becomes if `F` answers `-2`.  What gets less with every step
is the count of opening parentheses and identifiers together
(`Setting.callBound`): the step takes away the name and the parenthesis of a
call, and the value brings one of either back at most.

* `Outline.innermost_eq_some` — the innermost call is a part of the text;
* `CallSite.callBound_replace_lt` — a resolved call lowers the count;
* `Exhausts` — the loop of calls, round by round, whatever calls come to;
* `Exhausts.le_callBound`, `Exhausts.exists_end` — it ends within the count;
* `Setting.resolve_exhausts` — so does the loop of an evaluator.
-/

namespace FormulaSheet

namespace Setting

theorem callBound_eq_boundFrom (text : List Char) :
    callBound text = Item.boundFrom false (Item.ofText text) :=
  Piece.length_filter_bounds false (Item.ofText text)

/-- The count is that of the opening parentheses outside of quotes, and of the
identifiers that are not reserved, calls or not. -/
theorem callBound_eq (text : List Char) :
    callBound text = (mask text).count '(' + (Outline.ofText text).mentions.length +
      (Outline.ofText text).callees.length := by
  have wordless : ∀ {w : List Char}, (∀ c ∈ w, Character.isWord c = true) → w.count '(' = 0 := by
    intro w hw
    refine List.count_eq_zero.mpr fun paren => ?_
    exact absurd (hw _ paren) (by decide)
  have go : ∀ (is : List Item) (place : Quoting) (afterPoint : Bool), Item.Fitting place is →
      (Piece.readFrom afterPoint [] is).countP Piece.bounds =
        (is.flatMap Item.mask).count '(' +
          (Piece.readFrom afterPoint [] is).countP (fun p => p.reference?.isSome) +
          (Piece.readFrom afterPoint [] is).countP (fun p => p.callee?.isSome) := by
    intro is
    induction is with
    | nil => exact fun _ _ _ => rfl
    | cons i is ih =>
        intro place afterPoint ⟨hi, _, fitting⟩
        rw [Piece.readFrom_cons, List.flatMap_cons, List.count_append, List.countP_cons,
          List.countP_cons, List.countP_cons, ih _ i.isPoint fitting]
        have one : (if (Piece.ofItem afterPoint i is).bounds then 1 else 0) =
            (Item.mask i).count '(' +
              (if (Piece.ofItem afterPoint i is).reference?.isSome then 1 else 0) +
              (if (Piece.ofItem afterPoint i is).callee?.isSome then 1 else 0) := by
          cases i with
          | word w =>
              have none : (Item.mask (.word w)).count '(' = 0 := wordless hi.2.2
              simp only [Piece.ofItem, Piece.ofWord, none]
              split
              · rfl
              · split <;> rfl
          | mark c =>
              by_cases paren : c = '('
              · subst paren
                rfl
              · simp [Piece.ofItem, Piece.bounds, Piece.reference?, Piece.callee?, Item.mask, paren]
          | hidden c =>
              simp [Piece.ofItem, Piece.bounds, Piece.reference?, Piece.callee?, Item.mask,
                List.count_replicate]
        omega
  rw [callBound, ← List.countP_eq_length_filter, Outline.mentions, Outline.callees,
    List.length_filterMap_eq_countP, List.length_filterMap_eq_countP]
  exact go _ _ _ (Item.fitting_ofText text)

end Setting

namespace Outline

theorem firstCall?_eq_some {before o front rest : Outline} {w : List Char}
    (h : firstCall? before o = some (front, w, rest)) :
    before.reverse ++ o = front.reverse ++ .callee w :: rest := by
  induction o generalizing before with
  | nil => cases h
  | cons p o ih =>
      have pass : firstCall? (p :: before) o = some (front, w, rest) →
          before.reverse ++ p :: o = front.reverse ++ .callee w :: rest := by
        intro found
        rw [← ih found]
        simp
      cases p with
      | callee u =>
          obtain ⟨rfl, rfl, rfl⟩ : before = front ∧ u = w ∧ o = rest := by
            simpa [firstCall?] using h
          rfl
      | reference u => exact pass h
      | plain i => exact pass h

theorem close?_eq_some {d : Nat} {before o inner after : Outline}
    (h : close? d before o = some (inner, after)) :
    before.reverse ++ o = inner ++ closeParen :: after := by
  induction o generalizing d before with
  | nil => cases h
  | cons p o ih =>
      have pass : ∀ {d}, close? d (p :: before) o = some (inner, after) →
          before.reverse ++ p :: o = inner ++ closeParen :: after := by
        intro d found
        rw [← ih found]
        simp
      by_cases opening : p = openParen
      · subst opening
        rw [close?_open] at h
        exact pass h
      · by_cases closing : p = closeParen
        · subst closing
          cases d with
          | zero =>
              rw [close?_end] at h
              cases h
              rfl
          | succ d =>
              rw [close?_close] at h
              exact pass h
        · rw [close?_other ⟨opening, closing⟩] at h
          exact pass h

theorem openCall?_eq_some {o before gap inner : Outline} {name : List Char}
    (h : openCall? o = some (before, name, gap, inner)) :
    o = before ++ .callee name :: (gap ++ openParen :: inner) := by
  unfold openCall? at h
  split at h
  · cases h
  · rename_i front w rest found
    split at h
    · cases h
    · rename_i p inner' hdrop
      obtain ⟨rfl, rfl, rfl, rfl⟩ : front.reverse = before ∧ w = name ∧
          rest.takeWhile (· != openParen) = gap ∧ inner' = inner := by simpa using h
      have paren : p = openParen := by
        have first := List.head?_dropWhile_not (· != openParen) rest
        rw [hdrop] at first
        simpa using first
      have cut := List.takeWhile_append_dropWhile (p := (· != openParen)) (l := rest)
      rw [hdrop, paren] at cut
      rw [cut]
      exact firstCall?_eq_some found

/-- What is found is a part of the outline. -/
theorem innermostFrom_eq_some {room : Nat} {o : Outline} {site : CallSite}
    (h : innermostFrom room o = .ok (some site)) :
    o = site.before ++ .callee site.name :: (site.gap ++ openParen ::
      (site.inner ++ closeParen :: site.after)) := by
  induction room generalizing o site with
  | zero => cases h
  | succ room ih =>
      rw [innermostFrom] at h
      split at h
      · cases h
      · rename_i before name gap rest opened
        have outer := openCall?_eq_some opened
        split at h
        · cases h
        · rename_i inner after closed
          have within := close?_eq_some closed
          rw [List.reverse_nil, List.nil_append] at within
          rw [outer, within]
          dsimp only at h
          split at h
          · rename_i deeper found
            cases h
            rw [ih found]
            simp [CallSite.within, openParen, closeParen]
          · cases h
            rfl

/-- The innermost call is a part of the outline: a name with a parenthesis
behind it, and one that closes. -/
theorem innermost_eq_some {o : Outline} {site : CallSite} (h : o.innermost = .ok (some site)) :
    o = site.before ++ .callee site.name :: (site.gap ++ openParen ::
      (site.inner ++ closeParen :: site.after)) :=
  innermostFrom_eq_some h

end Outline

/-- Without parentheses and identifiers there is no call. -/
theorem Setting.innermost_of_callBound {text : List Char} (h : callBound text = 0) :
    (Outline.ofText text).innermost = .ok none := by
  rw [Outline.innermost, Outline.innermostFrom]
  cases opened : Outline.openCall? (Outline.ofText text) with
  | none => rfl
  | some call =>
      obtain ⟨before, name, gap, rest⟩ := call
      have here : Piece.callee name ∈ (Outline.ofText text).filter Piece.bounds := by
        rw [Outline.openCall?_eq_some opened]
        simp [Piece.bounds]
      rw [List.length_eq_zero_iff.mp h] at here
      cases here

namespace CallSite

variable {text : List Char} {site : CallSite}

/-- The items of a text with a call in it. -/
theorem items_eq (h : (Outline.ofText text).innermost = .ok (some site)) :
    Item.ofText text = site.before.map Piece.item ++ .word site.name ::
      (site.gap.map Piece.item ++ .mark '(' :: (site.inner.map Piece.item ++ .mark ')' ::
        site.after.map Piece.item)) := by
  rw [← Outline.map_item_ofText, Outline.innermost_eq_some h]
  simp only [List.map_append, List.map_cons]
  rfl

/-- What stands behind a call is cut as it was. -/
theorem ofText_after (h : (Outline.ofText text).innermost = .ok (some site)) :
    Item.ofText (Outline.text site.after) = site.after.map Piece.item := by
  have closing : Item.ofText text = (site.before.map Piece.item ++ .word site.name ::
      (site.gap.map Piece.item ++ .mark '(' :: site.inner.map Piece.item)) ++ .mark ')' ::
        site.after.map Piece.item := by
    rw [items_eq h]
    simp
  rw [← Piece.flatMap_text_item]
  exact Item.ofText_behind_mark closing (by decide)

/-- So is what stands before it, whatever takes its place. -/
theorem ofText_replace (h : (Outline.ofText text).innermost = .ok (some site))
    (cs : List Char) : Item.ofText (site.replace cs) =
      site.before.map Piece.item ++ Item.ofText (cs ++ Outline.text site.after) := by
  rw [replace, List.append_assoc, ← Piece.flatMap_text_item]
  exact Item.ofText_before_word (items_eq h) _

/-- A call that is replaced by its value lowers the count of opening
parentheses and identifiers. -/
theorem callBound_replace_lt (h : (Outline.ofText text).innermost = .ok (some site))
    (v : Value) : Setting.callBound (site.replace v.splice) < Setting.callBound text := by
  -- the name and its parenthesis go, and the value brings one of either at most
  have named : (Item.word site.name).bound
      (Item.pointAfter false (site.before.map Piece.item)) = 1 :=
    Piece.bound_item (Outline.innermost_eq_some h)
  have paren : ∀ afterPoint, (Item.mark '(').bound afterPoint = 1 := fun _ => rfl
  have noPoint : (Item.mark ')').isPoint = false := rfl
  have added := Item.boundFrom_splice_le v (Item.pointAfter false (site.before.map Piece.item))
    (Outline.text site.after)
  rw [ofText_after h] at added
  rw [Setting.callBound_eq_boundFrom, Setting.callBound_eq_boundFrom, items_eq h,
    ofText_replace h, Item.boundFrom_append, Item.boundFrom_append, Item.boundFrom, named,
    Item.boundFrom_append, Item.boundFrom, Item.boundFrom_append, Item.boundFrom, paren, noPoint]
  omega

end CallSite

/-- The loop that resolves the calls of a text from a state, until there is no
call or one cannot be resolved.  `answer` says what a call comes to and which
state it leaves; the number is that of the rounds, each of which takes up a
call. -/
inductive Exhausts {σ : Type} (answer : CallSite → σ → Outcome × σ) :
    List Char → σ → Nat → Except FormulaError (List Char) × σ → Prop where
  | none {text : List Char} {g : σ} (noCall : (Outline.ofText text).innermost = .ok none) :
      Exhausts answer text g 0 (.ok text, g)
  | unclosed {text : List Char} {g : σ} {e : FormulaError}
      (stuck : (Outline.ofText text).innermost = .error e) : Exhausts answer text g 0 (.error e, g)
  | failed {text : List Char} {g g' : σ} {site : CallSite} {e : FormulaError}
      (found : (Outline.ofText text).innermost = .ok (some site))
      (called : answer site g = (.error e, g')) : Exhausts answer text g 1 (.error e, g')
  | spliced {text : List Char} {g g' : σ} {site : CallSite} {v : Value} {n : Nat}
      {out : Except FormulaError (List Char) × σ}
      (found : (Outline.ofText text).innermost = .ok (some site))
      (called : answer site g = (.ok v, g'))
      (rest : Exhausts answer (site.replace v.splice) g' n out) :
      Exhausts answer text g (n + 1) out

namespace Exhausts

variable {σ : Type} {answer : CallSite → σ → Outcome × σ} {text : List Char} {g : σ}

/-- The loop has one end. -/
theorem unique {n n' : Nat} {out out' : Except FormulaError (List Char) × σ}
    (h : Exhausts answer text g n out) (h' : Exhausts answer text g n' out') :
    n = n' ∧ out = out' := by
  -- the innermost call, and what it comes to, decide which rule applies
  induction h generalizing n' out' with
  | none _ => cases h' <;> simp_all
  | unclosed _ => cases h' <;> simp_all
  | failed _ _ => cases h' <;> simp_all
  | spliced found called _ ih =>
      cases h' with
      | spliced found' called' rest =>
          obtain rfl : _ = _ := by simpa [found] using found'
          obtain ⟨rfl, rfl⟩ : _ = _ ∧ _ = _ := by simpa [called] using called'
          obtain ⟨rfl, rfl⟩ := ih rest
          exact ⟨rfl, rfl⟩
      | _ => simp_all

/-- The loop makes as many rounds at most as the text has opening parentheses
and identifiers. -/
theorem le_callBound {n : Nat} {out : Except FormulaError (List Char) × σ}
    (h : Exhausts answer text g n out) : n ≤ Setting.callBound text := by
  induction h with
  | none _ => exact Nat.zero_le _
  | unclosed _ => exact Nat.zero_le _
  | failed found _ =>
      -- the count of the text is more than that of any other
      exact Nat.succ_le_of_lt (Nat.lt_of_le_of_lt (Nat.zero_le _)
        (CallSite.callBound_replace_lt found .null))
  | spliced found _ _ ih =>
      exact Nat.succ_le_of_lt (Nat.lt_of_le_of_lt ih (CallSite.callBound_replace_lt found _))

/-- The loop comes to an end: every round lowers the count. -/
theorem exists_end (answer : CallSite → σ → Outcome × σ) (text : List Char) (g : σ) :
    ∃ n out, Exhausts answer text g n out := by
  induction hbound : Setting.callBound text using Nat.strong_induction_on generalizing text g with
  | _ bound ih =>
      subst hbound
      cases found : (Outline.ofText text).innermost with
      | error e => exact ⟨_, _, .unclosed found⟩
      | ok site? =>
          cases site? with
          | none => exact ⟨_, _, .none found⟩
          | some site =>
              rcases called : answer site g with ⟨outcome, g'⟩
              cases outcome with
              | error e => exact ⟨_, _, .failed found called⟩
              | ok v =>
                  obtain ⟨n, out, rest⟩ :=
                    ih _ (CallSite.callBound_replace_lt found v) (site.replace v.splice) g' rfl
                  exact ⟨_, _, .spliced found called rest⟩

end Exhausts

namespace Setting

/-- What a call comes to: its arguments, and then the function, which may draw
random numbers. -/
def serve (s : Setting) (site : CallSite) : Run Value := do
  let args ← (splitArguments (Outline.text site.inner)).mapM s.argument
  s.call maxCallDepth (String.ofList site.name) args

/-- Resolving one call is a round of the loop. -/
theorem resolveOne_of_some (s : Setting) {text : List Char} {site : CallSite}
    (found : (Outline.ofText text).innermost = .ok (some site)) :
    s.resolveOne text = (fun v => some (site.replace v.splice)) <$> s.serve site := by
  unfold resolveOne serve
  rw [found]
  simp

/-- The loop of an evaluator ends in the rounds that are provided for it. -/
theorem exhausts_resolveFrom (s : Setting) {room : Nat} {text : List Char} {r : RandomSource}
    (enough : callBound text ≤ room) :
    ∃ n, Exhausts (fun site => Run.from (s.serve site)) text r n
      (Run.from (s.resolveFrom room text) r) := by
  induction room generalizing text r with
  | zero =>
      exact ⟨0, .none (innermost_of_callBound (Nat.le_zero.mp enough))⟩
  | succ room ih =>
      rw [resolveFrom]
      cases found : (Outline.ofText text).innermost with
      | error e =>
          refine ⟨0, ?_⟩
          have stopped : s.resolveOne text = throw e := by
            unfold resolveOne
            rw [found]
          rw [stopped, Run.from_bind_error (Run.from_throw e r)]
          exact .unclosed found
      | ok site? =>
          cases site? with
          | none =>
              refine ⟨0, ?_⟩
              have ended : s.resolveOne text = pure none := by
                unfold resolveOne
                rw [found]
              rw [ended, Run.from_bind_ok (Run.from_pure none r)]
              exact .none found
          | some site =>
              rcases called : Run.from (s.serve site) r with ⟨outcome, r'⟩
              have one := Run.from_map (f := fun v => some (site.replace v.splice)) called
              rw [← s.resolveOne_of_some found] at one
              cases outcome with
              | error e =>
                  refine ⟨1, ?_⟩
                  rw [Run.from_bind_error one]
                  exact .failed found called
              | ok v =>
                  have less := CallSite.callBound_replace_lt found v
                  obtain ⟨n, rest⟩ : ∃ n, Exhausts _ (site.replace v.splice) r' n _ :=
                    ih (by omega)
                  refine ⟨n + 1, ?_⟩
                  rw [Run.from_bind_ok one]
                  exact .spliced found called rest

/-- Resolving calls ends on every text, and whatever calls come to: the loop has
one end, and makes as many rounds at most as there are opening parentheses
outside of quotes, and identifiers that are not reserved.  An evaluator comes to
that end. -/
theorem resolve_exhausts {σ : Type} (answer : CallSite → σ → Outcome × σ) (g : σ) (s : Setting)
    (r : RandomSource) (text : List Char) :
    (∃ n out, Exhausts answer text g n out ∧
      n ≤ (mask text).count '(' + (Outline.ofText text).mentions.length +
        (Outline.ofText text).callees.length ∧
      ∀ n' out', Exhausts answer text g n' out' → n' = n ∧ out' = out) ∧
    ∃ n, Exhausts (fun site => Run.from (s.serve site)) text r n (Run.from (s.resolve text) r) ∧
      n ≤ (mask text).count '(' + (Outline.ofText text).mentions.length +
        (Outline.ofText text).callees.length := by
  rw [← callBound_eq]
  constructor
  · obtain ⟨n, out, h⟩ := Exhausts.exists_end answer text g
    exact ⟨n, out, h, h.le_callBound, fun n' out' h' => h'.unique h⟩
  · obtain ⟨n, h⟩ := s.exhausts_resolveFrom (r := r) (Nat.le_refl (callBound text))
    exact ⟨n, h, h.le_callBound⟩

end Setting

end FormulaSheet
