import FormulaSheet.Proofs.Exhaustion
import FormulaSheet.Proofs.Masking

/-!
# The outline of a mask

A mask is cut into items by its characters alone, since its quotes hide
nothing any more.  What comes out is the items of the text, with blanks in the
place of what is hidden, as many as it has bytes.  A blank is neither a name
nor a parenthesis, so it changes nothing about which calls there are and which
of them is the innermost.

* `Item.ofMasked_mask`, `Outline.ofMasked_mask` — the items and the outline of a
  mask;
* `Outline.byteSize_text_blanked` — places in a mask are places in its text;
* `Outline.innermost_blanked` — the innermost call of a mask.
-/

namespace FormulaSheet

/-! ## The items of a mask -/

namespace Item

/-- The item as it is in a mask. -/
def blanked : Item → List Item
  | hidden c => List.replicate c.utf8Size (.mark ' ')
  | i => [i]

/-- Cuts a text into items when its quotes hide nothing. -/
def ofMasked (cs : List Char) : List Item := cs.foldr (fun c => (ofChar .code c).meet) []

/-- Blanks are marks to whoever reads a masked text. -/
theorem ofMasked_blanks (n : Nat) (cs : List Char) :
    ofMasked (List.replicate n ' ' ++ cs) = List.replicate n (.mark ' ') ++ ofMasked cs := by
  induction n with
  | zero => rfl
  | succ n ih =>
      have blank : ofChar .code ' ' = .mark ' ' := by decide
      rw [List.replicate_succ, List.cons_append, ofMasked, List.foldr_cons, blank]
      exact congrArg (List.cons _) ih

/-- What is hidden becomes one blank or more. -/
theorem exists_blanked_hidden (c : Char) :
    ∃ n, (hidden c).blanked = .mark ' ' :: List.replicate n (.mark ' ') := by
  obtain ⟨n, hn⟩ := Nat.exists_eq_succ_of_ne_zero (Nat.ne_of_gt c.utf8Size_pos)
  exact ⟨n, by rw [blanked, hn]; rfl⟩

/-- What is shown joins the items before it, whether these are blanked first or after. -/
theorem flatMap_blanked_meet {i : Item} (shown : i.blanked = [i]) (is : List Item) :
    (i.meet is).flatMap blanked = i.meet (is.flatMap blanked) := by
  cases i with
  | word w =>
      cases is with
      | nil => rfl
      | cons j is =>
          cases j with
          | word u => rfl
          | mark c => rfl
          | hidden c =>
              obtain ⟨n, hn⟩ := exists_blanked_hidden c
              simp [meet, hn, shown]
  | mark c => rfl
  | hidden c => simp [meet, shown]

/-- To read a masked text is to blank what is read of the text itself, from wherever in
quotes the reading begins. -/
theorem ofMasked_maskFrom (place : Quoting) (cs : List Char) :
    ofMasked (maskFrom place cs) = (readFrom place [] [] cs).flatMap blanked := by
  induction cs generalizing place with
  | nil => rfl
  | cons c cs ih =>
      rw [readFrom_cons, maskFrom]
      cases hides : place.hides c with
      | true =>
          rw [Quoting.mask, if_pos hides, ofMasked_blanks, ih, ofChar, if_pos hides]
          rfl
      | false =>
          have here : ofChar place c = ofChar .code c := by
            rw [ofChar, ofChar, hides]
            rfl
          have shown : (ofChar .code c).blanked = [ofChar .code c] := by
            rw [ofChar, if_neg (by simp [Quoting.hides])]
            split <;> rfl
          rw [Quoting.mask, if_neg (by simp [hides]), here, flatMap_blanked_meet shown, ← ih]
          rfl

/-- **The items of a mask are those of the text, the hidden ones blanked.** -/
theorem ofMasked_mask (text : List Char) :
    ofMasked (FormulaSheet.mask text) = (ofText text).flatMap blanked := by
  rw [mask_eq_maskFrom, ofMasked_maskFrom]
  rfl

/-- Nothing is lost when a mask is cut into items. -/
theorem flatMap_text_ofMasked (cs : List Char) : (ofMasked cs).flatMap text = cs := by
  have met : ∀ (i : Item) (is : List Item),
      (i.meet is).flatMap text = i.text ++ is.flatMap text := by
    intro i is
    cases i with
    | word w =>
        cases is with
        | nil => rfl
        | cons j is => cases j <;> simp [meet, text]
    | mark c => rfl
    | hidden c => rfl
  have one : ∀ c, (ofChar .code c).text = [c] := by
    intro c
    rw [ofChar, if_neg (by simp [Quoting.hides])]
    split <;> rfl
  induction cs with
  | nil => rfl
  | cons c cs ih =>
      rw [ofMasked, List.foldr_cons, met, one]
      exact congrArg (c :: ·) ih

/-- Blanking changes no size. -/
theorem byteSize_flatMap_blanked (is : List Item) :
    byteSize ((is.flatMap blanked).flatMap text) = byteSize (is.flatMap text) := by
  have marks : ∀ n, (List.replicate n (Item.mark ' ')).flatMap text = List.replicate n ' ' := by
    intro n
    induction n with
    | zero => rfl
    | succ n ih => rw [List.replicate_succ, List.flatMap_cons, ih]; rfl
  induction is with
  | nil => rfl
  | cons i is ih =>
      rw [List.flatMap_cons, List.flatMap_append, byteSize_append, ih, List.flatMap_cons,
        byteSize_append]
      congr 1
      cases i with
      | hidden c =>
          rw [blanked, marks, byteSize_blanks, text, byteSize_cons]
          rfl
      | word w => simp [blanked]
      | mark c => simp [blanked]

/-- A parenthesis opens in a mask where one does in its text. -/
theorem opens_flatMap_blanked {is : List Item} (h : Fitting .code is) :
    Piece.opens (is.flatMap blanked) = Piece.opens is := by
  induction is with
  | nil => rfl
  | cons i is ih =>
      obtain ⟨hi, -, rest⟩ := h
      cases i with
      | word w => rfl
      | mark c =>
          cases gap : Piece.isGap (.mark c) with
          | true =>
              have blank : Character.isBlank c = true := gap
              rw [text, Quoting.afterAll_cons,
                Quoting.after_code (Character.not_quote_of_isBlank blank)] at rest
              have behind := ih rest
              rw [List.flatMap_cons]
              simpa [Piece.opens, blanked, gap] using behind
          | false => simp [Piece.opens, blanked, gap]
      | hidden c => exact absurd hi (by simp [Fits, Quoting.hides])

end Item

/-! ## The outline of a mask -/

namespace Piece

/-- The piece as it is in a mask. -/
def blanked : Piece → Outline
  | plain i => i.blanked.map .plain
  | p => [p]

/-- A blank in a mask. -/
def gap : Piece := plain (.mark ' ')

/-- A piece stays, or gaps take its place. -/
theorem blanked_cases (p : Piece) : p.blanked = [p] ∨
    ∃ c n, p = plain (.hidden c) ∧ p.blanked = List.replicate (n + 1) gap := by
  cases p with
  | reference w => exact .inl rfl
  | callee w => exact .inl rfl
  | plain i =>
      cases i with
      | word w => exact .inl rfl
      | mark c => exact .inl rfl
      | hidden c =>
          obtain ⟨n, hn⟩ := Item.exists_blanked_hidden c
          refine .inr ⟨c, n, rfl, ?_⟩
          rw [blanked, hn, List.map_cons, List.map_replicate]
          rfl

/-- A piece is blanked to itself or to gaps. -/
theorem eq_or_eq_gap_of_mem_blanked {p q : Piece} (h : q ∈ p.blanked) : q = p ∨ q = gap := by
  rcases p.blanked_cases with one | ⟨c, n, -, gaps⟩
  · rw [one] at h
    exact .inl (List.mem_singleton.mp h)
  · rw [gaps] at h
    exact .inr (List.eq_of_mem_replicate h)

/-- Items are put together to pieces before they are blanked or after. -/
theorem readFrom_flatMap_blanked {place : Quoting} {is : List Item} (h : Item.Fitting place is)
    (afterPoint : Bool) : readFrom afterPoint [] (is.flatMap Item.blanked) =
      (readFrom afterPoint [] is).flatMap blanked := by
  induction is generalizing place afterPoint with
  | nil => rfl
  | cons i is ih =>
      obtain ⟨hi, -, rest⟩ := h
      rw [List.flatMap_cons]
      cases i with
      | word w =>
          have one : (ofWord afterPoint w is).blanked = [ofWord afterPoint w is] := by
            unfold ofWord
            split
            · rfl
            · split <;> rfl
          rw [hi.afterAll_word] at rest
          have same : ofWord afterPoint w (is.flatMap Item.blanked) = ofWord afterPoint w is := by
            rw [ofWord, ofWord, Item.opens_flatMap_blanked rest]
          rw [Item.blanked, List.singleton_append, readFrom_word, readFrom_word, List.flatMap_cons,
            ih rest, same, one]
          · rfl
          · simp
      | mark c =>
          rw [readFrom_mark, List.flatMap_cons, ← ih rest]
          exact readFrom_mark afterPoint c _
      | hidden c =>
          obtain ⟨n, hn⟩ := Item.exists_blanked_hidden c
          rw [readFrom_hidden, List.flatMap_cons, ← ih rest, readFrom_plain]
          · rfl
          · intro j hj
            rw [Item.blanked] at hj
            exact ⟨' ', .inl ⟨List.eq_of_mem_replicate hj, by decide⟩⟩
          · rw [hn]
            simp

end Piece

namespace Outline

/-- The outline of a text in which quotes hide nothing. -/
def ofMasked (cs : List Char) : Outline := Piece.ofItems (Item.ofMasked cs)

/-- The outline as it is in a mask. -/
def blanked (o : Outline) : Outline := o.flatMap Piece.blanked

/-- The outline of a mask is that of the text, what is hidden blanked. -/
theorem ofMasked_mask (text : List Char) : ofMasked (mask text) = (ofText text).blanked := by
  rw [ofMasked, Item.ofMasked_mask]
  exact Piece.readFrom_flatMap_blanked (Item.fitting_ofText text) false

theorem blanked_cons (p : Piece) (o : Outline) : blanked (p :: o) = p.blanked ++ blanked o :=
  List.flatMap_cons

theorem blanked_append (o o' : Outline) : blanked (o ++ o') = blanked o ++ blanked o' :=
  List.flatMap_append

theorem blanked_reverse (o : Outline) : (blanked o).reverse = blanked o.reverse := by
  induction o with
  | nil => rfl
  | cons p o ih =>
      have same : p.blanked.reverse = p.blanked := by
        rcases p.blanked_cases with one | ⟨c, n, -, gaps⟩
        · rw [one]
          rfl
        · rw [gaps, List.reverse_replicate]
      rw [blanked_cons, List.reverse_append, ih, same, List.reverse_cons, blanked_append,
        blanked_cons]
      simp [blanked]

/-- Blanking loses no piece. -/
theorem length_le_blanked (o : Outline) : o.length ≤ o.blanked.length := by
  induction o with
  | nil => exact Nat.le_refl _
  | cons p o ih =>
      have one : 1 ≤ p.blanked.length := by
        rcases p.blanked_cases with one | ⟨c, n, -, gaps⟩
        · rw [one]
          exact Nat.le_refl _
        · rw [gaps, List.length_replicate]
          exact Nat.le_add_left 1 n
      rw [blanked_cons, List.length_append, List.length_cons]
      omega

/-- The bytes before a piece are as many in the blanked outline. -/
theorem byteSize_text_blanked (o : Outline) :
    byteSize (text o.blanked) = byteSize (text o) := by
  have items : o.blanked.map Piece.item = (o.map Piece.item).flatMap Item.blanked := by
    induction o with
    | nil => rfl
    | cons p o ih =>
        rw [blanked_cons, List.map_append, ih, List.map_cons, List.flatMap_cons]
        congr 1
        cases p with
        | plain i => simp [Piece.blanked, Piece.item, Function.comp_def]
        | reference w => rfl
        | callee w => rfl
  rw [← Piece.flatMap_text_item, items, Item.byteSize_flatMap_blanked, Piece.flatMap_text_item]

/-! ## The innermost call of a mask -/

/-- The search for a name passes over gaps. -/
theorem firstCall?_gaps (n : Nat) (before o : Outline) :
    firstCall? before (List.replicate n Piece.gap ++ o) =
      firstCall? (List.replicate n Piece.gap ++ before) o := by
  induction n generalizing before with
  | zero => rfl
  | succ n ih =>
      rw [List.replicate_succ, List.cons_append]
      refine (ih (Piece.gap :: before)).trans ?_
      rw [← List.replicate_succ, List.replicate_succ', List.append_assoc]
      rfl

/-- The first call stays the first. -/
theorem firstCall?_blanked (before o : Outline) :
    firstCall? before.blanked o.blanked =
      (firstCall? before o).map fun (a, w, b) => (a.blanked, w, b.blanked) := by
  induction o generalizing before with
  | nil => rfl
  | cons p o ih =>
      have pass := ih (p :: before)
      rw [blanked_cons] at pass ⊢
      rcases p.blanked_cases with one | ⟨c, n, rfl, gaps⟩
      · rw [one] at pass ⊢
        cases p with
        | callee w => rfl
        | reference w => exact pass
        | plain i => exact pass
      · rw [gaps] at pass ⊢
        rw [firstCall?_gaps]
        exact pass

/-- A parenthesis is closed by the same one. -/
theorem close?_blanked (d : Nat) (before o : Outline) :
    close? d before.blanked o.blanked =
      (close? d before o).map fun (a, b) => (a.blanked, b.blanked) := by
  induction o generalizing d before with
  | nil => rfl
  | cons p o ih =>
      rw [blanked_cons]
      rcases p.blanked_cases with one | ⟨c, n, rfl, gaps⟩
      · have pass : ∀ d, close? d (p :: blanked before) (blanked o) =
            (close? d (p :: before) o).map fun (a, b) => (a.blanked, b.blanked) := by
          intro d
          have next := ih d (p :: before)
          rwa [blanked_cons, one] at next
        rw [one, List.singleton_append]
        by_cases opening : p = openParen
        · rw [opening] at pass ⊢
          rw [close?_open, close?_open]
          exact pass (d + 1)
        · by_cases closing : p = closeParen
          · rw [closing] at pass ⊢
            cases d with
            | zero =>
                rw [close?_end, close?_end, blanked_reverse]
                rfl
            | succ d =>
                rw [close?_close, close?_close]
                exact pass d
          · rw [close?_other ⟨opening, closing⟩, close?_other ⟨opening, closing⟩]
            exact pass d
      · have noParen : ∀ q ∈ List.replicate (n + 1) Piece.gap,
            q ≠ openParen ∧ q ≠ closeParen := by
          intro q hq
          rw [List.eq_of_mem_replicate hq]
          decide
        have pass := ih d (.plain (.hidden c) :: before)
        rw [blanked_cons, gaps] at pass
        rw [gaps, close?_skip noParen, List.reverse_replicate, pass,
          close?_other (by simp [openParen, closeParen])]

/-- A parenthesis is not blanked, so what is before it is. -/
theorem span_blanked (o : Outline) :
    o.blanked.takeWhile (· != openParen) = blanked (o.takeWhile (· != openParen)) ∧
      o.blanked.dropWhile (· != openParen) = blanked (o.dropWhile (· != openParen)) := by
  induction o with
  | nil => exact ⟨rfl, rfl⟩
  | cons p o ih =>
      by_cases paren : p = openParen
      · subst paren
        exact ⟨rfl, rfl⟩
      · have passed : (p != openParen) = true := by simpa using paren
        have all : ∀ q ∈ p.blanked, (q != openParen) = true := by
          intro q hq
          rcases Piece.eq_or_eq_gap_of_mem_blanked hq with rfl | rfl
          · exact passed
          · decide
        rw [blanked_cons, List.takeWhile_append_of_pos all, List.dropWhile_append_of_pos all,
          ih.1, ih.2,
          List.takeWhile_cons_of_pos (p := (· != openParen)) passed,
          List.dropWhile_cons_of_pos (p := (· != openParen)) passed, blanked_cons]
        exact ⟨rfl, rfl⟩

/-- The call that is opened first stays so, with what is around it. -/
theorem openCall?_blanked (o : Outline) : openCall? o.blanked =
    (openCall? o).map fun (a, w, g, b) => (a.blanked, w, g.blanked, b.blanked) := by
  unfold openCall?
  rw [show firstCall? [] o.blanked = _ from firstCall?_blanked [] o]
  cases firstCall? [] o with
  | none => rfl
  | some found =>
      obtain ⟨before, w, rest⟩ := found
      dsimp only [Option.map_some]
      rw [(span_blanked rest).1, (span_blanked rest).2]
      have first := List.head?_dropWhile_not (· != openParen) rest
      cases dropped : rest.dropWhile (· != openParen) with
      | nil => rfl
      | cons p inner =>
          rw [dropped] at first
          obtain rfl : p = openParen := by simpa using first
          simp only [Option.map_some, ← blanked_reverse]
          rfl

end Outline

/-- The call as it is in a mask. -/
def CallSite.blanked (c : CallSite) : CallSite :=
  ⟨c.before.blanked, c.name, c.gap.blanked, c.inner.blanked, c.after.blanked⟩

/-- A call inside another is blanked with what is around it. -/
theorem CallSite.blanked_within (outer inner : CallSite) :
    (outer.within inner).blanked = outer.blanked.within inner.blanked := by
  simp only [within, blanked, Outline.blanked_append, Outline.blanked_cons]
  rfl

namespace Outline

/-- The search for an innermost call finds it in the blanked outline too, within any
bound. -/
theorem innermostFrom_blanked (room : Nat) (o : Outline) :
    innermostFrom room o.blanked = (innermostFrom room o).map (Option.map CallSite.blanked) := by
  induction room generalizing o with
  | zero => rfl
  | succ room ih =>
      rw [innermostFrom, innermostFrom, openCall?_blanked]
      cases openCall? o with
      | none => rfl
      | some call =>
          obtain ⟨before, w, gap, rest⟩ := call
          dsimp only [Option.map_some]
          rw [show close? 0 [] rest.blanked = _ from close?_blanked 0 [] rest]
          cases close? 0 [] rest with
          | none =>
              dsimp only [Option.map_none]
              rw [byteSize_text_blanked, byteSize_text_blanked]
              rfl
          | some cut =>
              obtain ⟨inner, after⟩ := cut
              dsimp only [Option.map_some]
              rw [ih inner]
              rcases innermostFrom room inner with e | (_ | deeper)
              · rfl
              · rfl
              · exact congrArg (fun s => Except.ok (some s))
                  (CallSite.blanked_within ⟨before, w, gap, inner, after⟩ deeper).symm

/-- Room for the whole outline is enough. -/
theorem innermostFrom_of_length {room room' : Nat} {o : Outline} (h : o.length < room)
    (h' : o.length < room') : innermostFrom room o = innermostFrom room' o := by
  induction room generalizing o room' with
  | zero => cases h
  | succ room ih =>
      cases room' with
      | zero => cases h'
      | succ room' =>
          rw [innermostFrom, innermostFrom]
          cases opened : openCall? o with
          | none => rfl
          | some call =>
              obtain ⟨before, w, gap, rest⟩ := call
              dsimp only
              cases closed : close? 0 [] rest with
              | none => rfl
              | some cut =>
                  obtain ⟨inner, after⟩ := cut
                  have shorter : inner.length < o.length := by
                    have whole := close?_eq_some closed
                    rw [List.reverse_nil, List.nil_append] at whole
                    rw [openCall?_eq_some opened, whole]
                    simp only [List.length_append, List.length_cons]
                    omega
                  have same : innermostFrom room inner = innermostFrom room' inner :=
                    ih (by omega) (by omega)
                  dsimp only
                  rw [same]

/-- **The innermost call is the same whether quoted text is blanked or not.** -/
theorem innermost_blanked (o : Outline) :
    o.blanked.innermost = o.innermost.map (Option.map CallSite.blanked) := by
  rw [innermost, innermostFrom_blanked, innermost,
    innermostFrom_of_length (Nat.lt_succ_of_le o.length_le_blanked) (Nat.lt_succ_self _)]

end Outline

end FormulaSheet
