import FormulaSheet.Proofs.Arguments
import FormulaSheet.Proofs.Focus

/-!
# The innermost call of a spelled formula

The innermost call is searched in the outline of a text.  In a spelled formula
the search never fails, and what it finds is a name with its parentheses among
the blocks of the text.

* `Closed` — every call among tokens has its arguments and its end;
* `CallSite.Cuts` — a site cuts blocks at a call;
* `Outline.innermost_textOf` — the search finds such a site or no call.
-/

namespace FormulaSheet

/-- Every name before an opening parenthesis is followed by arguments and a
closing parenthesis. -/
def Closed (ts : List Token) : Prop :=
  ∀ {pre rest : List Token} {f : String}, ts = pre ++ .name f :: .symbol .openParen :: rest →
    ∃ (items : List ItemPhrase) (post : List Token),
      rest = joined (items.map ItemPhrase.tokens) ++ .symbol .closeParen :: post ∧
      ∀ i ∈ items, Derives .conditional i.tokens i.tree

/-- What can be parsed has its brackets closed. -/
theorem Parser.closed_of_parseTokens {ts : List Token} {e : Expr}
    (h : parseTokens ts = .ok e) : Closed ts := by
  intro pre rest f eq
  obtain ⟨items, post, C, hrest, hitems, -⟩ := focused_of_parseTokens h eq
  exact ⟨items, post, hrest, hitems⟩

/-- So has a list of phrases. -/
theorem closed_joined {items : List ItemPhrase}
    (hitems : ∀ i ∈ items, Derives .conditional i.tokens i.tree) :
    Closed (joined (items.map ItemPhrase.tokens)) :=
  fun eq => focused_joined hitems eq

/-- Arguments leave the depth of parentheses as it is. -/
theorem neutral_joined {items : List ItemPhrase}
    (hitems : ∀ i ∈ items, Derives .conditional i.tokens i.tree) :
    Neutral Symbol.parenRole (joined (items.map ItemPhrase.tokens)) := by
  have each : ∀ ts ∈ items.map ItemPhrase.tokens, Neutral Symbol.parenRole ts := by
    intro ts hts
    obtain ⟨i, hi, rfl⟩ := List.mem_map.mp hts
    exact (hitems i hi).neutral bracketing_parenRole
  intro d more
  exact depthAfter_joined bracketing_parenRole each (.inr rfl) more

/-- The parenthesis that closes is the first one before which the depth comes
out even. -/
theorem Neutral.closing_unique {ts ts' us us' : List Token}
    (h : Neutral Symbol.parenRole ts) (h' : Neutral Symbol.parenRole ts')
    (eq : ts ++ .symbol .closeParen :: us = ts' ++ .symbol .closeParen :: us') :
    ts = ts' ∧ us = us' := by
  -- a longer one would hold the closing parenthesis of the shorter one
  have shorter : ∀ {ts ts' us us' after : List Token}, Neutral Symbol.parenRole ts →
      Neutral Symbol.parenRole ts' → ts' = ts ++ after →
      .symbol .closeParen :: us = after ++ .symbol .closeParen :: us' → ts = ts' ∧ us = us' := by
    intro ts ts' us us' after h h' hts' hus
    cases after with
    | nil =>
        rw [List.nil_append] at hus
        exact ⟨by rw [hts', List.append_nil], (List.cons.inj hus).2⟩
    | cons t after =>
        obtain ⟨rfl, -⟩ := List.cons.inj hus
        have even := h'.depthAfter 0
        rw [hts', h 0] at even
        cases even
  rcases List.append_eq_append_iff.mp eq with ⟨after, hts', hus⟩ | ⟨after, hts, hus⟩
  · exact shorter h h' hts' hus
  · obtain ⟨hts, hus⟩ := shorter h' h hts hus
    exact ⟨hts.symm, hus.symm⟩

namespace Block

/-- The text of a block's pieces is its text. -/
theorem text_pieces (b : Block) (next : List Block) : Outline.text (b.pieces next) = b.text := by
  have plain : ∀ items : List Item,
      Outline.text (items.map .plain) = items.flatMap Item.text := by
    intro items
    rw [Outline.text, List.flatMap_map]
    rfl
  cases b with
  | name w =>
      have one : (namePiece w next).text = w := by
        unfold namePiece
        split
        · rfl
        · split <;> rfl
      simp [pieces, Outline.text, one, text]
  | blank c => exact (plain _).trans (flatMap_text_items (.blank c))
  | number cs x => exact (plain _).trans (flatMap_text_items (.number cs x))
  | quoted q body s => exact (plain _).trans (flatMap_text_items (.quoted q body s))
  | sign cs s => exact (plain _).trans (flatMap_text_items (.sign cs s))

/-- The text of an outline is that of its blocks. -/
theorem text_outline (bs : List Block) : Outline.text (outline bs) = textOf bs := by
  induction bs with
  | nil => rfl
  | cons b bs ih =>
      have split : Outline.text (b.pieces bs ++ outline bs) =
          Outline.text (b.pieces bs) ++ Outline.text (outline bs) := List.flatMap_append
      rw [outline, split, text_pieces, ih, textOf_cons]

/-- What opens at the front still does, with more behind it that does not. -/
theorem opens_append {us : List Block} (h : opens us = false) (bs : List Block) :
    opens (bs ++ us) = opens bs := by
  induction bs with
  | nil => exact h
  | cons b bs ih =>
      cases b with
      | blank c => exact ih
      | name w => rfl
      | number cs x => rfl
      | quoted q body s => rfl
      | sign cs s => rfl

/-- Blocks have their outline before any others that do not make a call of
their last name. -/
theorem outline_append {us : List Block} (h : opens us = false) (bs : List Block) :
    outline (bs ++ us) = outline bs ++ outline us := by
  induction bs with
  | nil => rfl
  | cons b bs ih =>
      have same : b.pieces (bs ++ us) = b.pieces bs := by
        cases b with
        | name w => simp only [pieces, namePiece, opens_append h]
        | blank c => rfl
        | number cs x => rfl
        | quoted q body s => rfl
        | sign cs s => rfl
      rw [List.cons_append, outline, same, ih, outline, List.append_assoc]

/-- A parenthesis that opens next has only blanks before it. -/
theorem exists_gap {tail : List Block} (hvalid : ∀ b ∈ tail, b.Valid) (h : opens tail = true) :
    ∃ gap more, tail = gap ++ .sign ['('] .openParen :: more ∧ tokens gap = [] ∧
      (outline tail).dropWhile (· != Outline.openParen) =
        Outline.openParen :: outline more := by
  induction tail with
  | nil => cases h
  | cons b tail ih =>
      cases b with
      | blank c =>
          obtain ⟨gap, more, rfl, hgap, hdrop⟩ :=
            ih (fun b hb => hvalid b (List.mem_cons_of_mem _ hb)) h
          refine ⟨.blank c :: gap, more, rfl, hgap, ?_⟩
          have hblank : Character.isBlank c = true := hvalid _ List.mem_cons_self
          have notParen : Piece.plain (.mark c) ≠ Outline.openParen := by
            intro eq
            cases eq
            exact absurd hblank (by decide)
          rw [← hdrop]
          exact List.dropWhile_cons_of_pos (by simpa using notParen)
      | name w => cases h
      | number cs x => cases h
      | quoted q body s => cases h
      | sign cs s =>
          have table : ∀ p ∈ signs, p.2 = .openParen → p.1 = ['('] := by decide
          obtain rfl : s = .openParen := by simpa [opens] using h
          obtain rfl : cs = ['('] := table _ (hvalid _ List.mem_cons_self) rfl
          exact ⟨[], tail, rfl, rfl, List.dropWhile_cons_of_neg (by decide)⟩

end Block

namespace Outline

/-- The texts of two outlines are put one after another. -/
theorem text_append (o p : Outline) : text (o ++ p) = text o ++ text p := List.flatMap_append

/-- The first call of an outline is that of its blocks. -/
theorem firstCall?_outline (bs : List Block) (before : Outline) :
    firstCall? before (Block.outline bs) = none ∨
      ∃ front w tail o, bs = front ++ .name w :: tail ∧ Block.opens tail = true ∧
        firstCall? before (Block.outline bs) = some (o, w, Block.outline tail) ∧
        text o.reverse = text before.reverse ++ Block.textOf front := by
  induction bs generalizing before with
  | nil => exact .inl rfl
  | cons b bs ih =>
      -- pieces that call nothing are passed over
      have pass : (∀ o before, firstCall? before (b.pieces bs ++ o) =
            firstCall? ((b.pieces bs).reverse ++ before) o) →
          firstCall? before (Block.outline (b :: bs)) = none ∨
            ∃ front w tail o, b :: bs = front ++ .name w :: tail ∧ Block.opens tail = true ∧
              firstCall? before (Block.outline (b :: bs)) = some (o, w, Block.outline tail) ∧
              text o.reverse = text before.reverse ++ Block.textOf front := by
        intro passed
        rw [Block.outline, passed]
        rcases ih ((b.pieces bs).reverse ++ before) with
          none | ⟨front, w, tail, o, rfl, hopens, found, htext⟩
        · exact .inl none
        · refine .inr ⟨b :: front, w, tail, o, rfl, hopens, found, ?_⟩
          rw [htext, List.reverse_append, List.reverse_reverse, text_append, Block.text_pieces,
            Block.textOf_cons, List.append_assoc]
      have plain : ∀ (items : List Item) (o before : Outline),
          firstCall? before (items.map .plain ++ o) =
            firstCall? ((items.map .plain).reverse ++ before) o := by
        intro items o
        induction items with
        | nil => exact fun before => rfl
        | cons i items ih =>
            intro before
            show firstCall? (.plain i :: before) (items.map .plain ++ o) = _
            rw [ih, List.map_cons, List.reverse_cons, List.append_assoc]
            rfl
      cases b with
      | name w =>
          by_cases reserved : isReserved (String.ofList w) = true
          · refine pass fun o before => ?_
            simp [Block.pieces, Block.namePiece, reserved, firstCall?]
          · by_cases hopens : Block.opens bs = true
            · refine .inr ⟨[], w, bs, before, rfl, hopens, ?_, by simp⟩
              simp [Block.outline, Block.pieces, Block.namePiece, reserved, hopens, firstCall?]
            · refine pass fun o before => ?_
              simp [Block.pieces, Block.namePiece, reserved, hopens, firstCall?]
      | blank c => exact pass (plain _)
      | number cs x => exact pass (plain _)
      | quoted q body s => exact pass (plain _)
      | sign cs s => exact pass (plain _)

end Outline

/-- A call site cuts blocks at a call: `front` is before its name, `gap`
between the name and the parenthesis, `inner` inside and `back` behind. -/
structure CallSite.Cuts (site : CallSite) (bs front gap inner back : List Block) : Prop where
  blocks_eq : bs = front ++ .name site.name :: (gap ++ .sign ['('] .openParen ::
    (inner ++ .sign [')'] .closeParen :: back))
  tokens_gap : Block.tokens gap = []
  neutral : Neutral Symbol.parenRole (Block.tokens inner)
  text_before : Outline.text site.before = Block.textOf front
  text_gap : Outline.text site.gap = Block.textOf gap
  text_inner : Outline.text site.inner = Block.textOf inner
  text_after : Outline.text site.after = Block.textOf back

/-- A call inside of another cuts the blocks that the other one cuts. -/
theorem CallSite.Cuts.within {outer deeper : CallSite}
    {bs front gap inner back front' gap' inner' back' : List Block}
    (h : outer.Cuts bs front gap inner back) (h' : deeper.Cuts inner front' gap' inner' back') :
    (outer.within deeper).Cuts bs
      (front ++ .name outer.name :: (gap ++ .sign ['('] .openParen :: front')) gap' inner'
      (back' ++ .sign [')'] .closeParen :: back) where
  blocks_eq := by
    rw [h.blocks_eq, h'.blocks_eq]
    simp [CallSite.within]
  tokens_gap := h'.tokens_gap
  neutral := h'.neutral
  text_before := by
    have parts : Outline.text (outer.within deeper).before =
        Outline.text outer.before ++ (outer.name ++ (Outline.text outer.gap ++
          ('(' :: Outline.text deeper.before))) := by
      simp [CallSite.within, Outline.text, Piece.text, Item.text]
    rw [parts, h.text_before, h.text_gap, h'.text_before]
    simp [Block.text]
  text_gap := h'.text_gap
  text_inner := h'.text_inner
  text_after := by
    have parts : Outline.text (outer.within deeper).after =
        Outline.text deeper.after ++ (')' :: Outline.text outer.after) := by
      simp [CallSite.within, Outline.text, Piece.text, Item.text]
    rw [parts, h'.text_after, h.text_after]
    simp [Block.text]

namespace Outline

/-- The call that is first is opened at its parenthesis. -/
theorem openCall?_of_firstCall? {o before tail inner : Outline} {w : List Char}
    (found : firstCall? [] o = some (before, w, tail))
    (hdrop : tail.dropWhile (· != openParen) = openParen :: inner) :
    openCall? o = some (before.reverse, w, tail.takeWhile (· != openParen), inner) := by
  simp only [openCall?, found, hdrop]

/-- What is taken before a parenthesis is the blanks before it. -/
theorem text_takeWhile {gap more : List Block}
    (hdrop : (Block.outline (gap ++ .sign ['('] .openParen :: more)).dropWhile (· != openParen) =
      openParen :: Block.outline more) :
    text ((Block.outline (gap ++ .sign ['('] .openParen :: more)).takeWhile (· != openParen)) =
      Block.textOf gap := by
  have whole := congrArg text (List.takeWhile_append_dropWhile (p := (· != openParen))
    (l := Block.outline (gap ++ .sign ['('] .openParen :: more)))
  rw [text_append, hdrop, Block.text_outline, Block.textOf_append, Block.textOf_cons] at whole
  have paren : text (openParen :: Block.outline more) = '(' :: Block.textOf more := by
    rw [← Block.text_outline more]
    rfl
  rw [paren] at whole
  exact List.append_cancel_right whole

/-- The search for an innermost call finds one, or there is none. -/
theorem innermostFrom_outline (room : Nat) {bs : List Block} (hvalid : ∀ b ∈ bs, b.Valid)
    (closed : Closed (Block.tokens bs)) :
    innermostFrom room (Block.outline bs) = .ok none ∨
      ∃ site front gap inner back, innermostFrom room (Block.outline bs) = .ok (some site) ∧
        CallSite.Cuts site bs front gap inner back := by
  induction room generalizing bs with
  | zero => exact .inl rfl
  | succ room ih =>
      rw [innermostFrom]
      rcases firstCall?_outline bs [] with none | ⟨front, w, tail, o, rfl, hopens, found, htext⟩
      · refine .inl ?_
        simp only [openCall?, none]
      · have htail : ∀ b ∈ tail, b.Valid :=
          fun b hb => hvalid b (List.mem_append_right _ (List.mem_cons_of_mem _ hb))
        obtain ⟨gap, more, rfl, hgap, hdrop⟩ := Block.exists_gap htail hopens
        have tokens_tail :
            Block.tokens (front ++ .name w :: (gap ++ .sign ['('] .openParen :: more)) =
              Block.tokens front ++
                .name (String.ofList w) :: .symbol .openParen :: Block.tokens more := by
          simp [hgap]
        obtain ⟨items, post, hrest, hitems⟩ := closed tokens_tail
        obtain ⟨inner, cs, back, rfl, hinner, hback⟩ := Block.split_tokens hrest
        obtain rfl : cs = [')'] := by
          have table : ∀ p ∈ signs, p.2 = .closeParen → p.1 = [')'] := by decide
          exact table _ (htail (.sign cs .closeParen) (by simp)) rfl
        have neutral : Neutral Symbol.parenRole (Block.tokens inner) := by
          rw [hinner]
          exact neutral_joined hitems
        have hclose : close? 0 [] (Block.outline (inner ++ .sign [')'] .closeParen :: back)) =
            some (Block.outline inner, Block.outline back) := by
          rw [Block.outline_append rfl, close?_outline (fun b hb => htail b (by simp [hb]))
            (neutral.depthAfter 0)]
          show close? 0 _ (closeParen :: Block.outline back) = _
          rw [close?_end, List.append_nil, List.reverse_reverse]
        obtain ⟨blanks, hblanks, opened⟩ : ∃ blanks, text blanks = Block.textOf gap ∧
            openCall? _ = some (o.reverse, w, blanks, _) :=
          ⟨_, text_takeWhile hdrop, openCall?_of_firstCall? found hdrop⟩
        have cuts :
            CallSite.Cuts ⟨o.reverse, w, blanks, Block.outline inner, Block.outline back⟩ _
              front gap inner back := {
          blocks_eq := rfl
          tokens_gap := hgap
          neutral := neutral
          text_before := by simpa [text] using htext
          text_gap := hblanks
          text_inner := Block.text_outline inner
          text_after := Block.text_outline back }
        simp only [opened, hclose]
        have inside : Closed (Block.tokens inner) := by
          rw [hinner]
          exact closed_joined hitems
        have hinnerValid : ∀ b ∈ inner, b.Valid := fun b hb => htail b (by simp [hb])
        rcases ih hinnerValid inside with
          none | ⟨deeper, front', gap', inner', back', found', cuts'⟩
        · rw [none]
          exact .inr ⟨_, front, gap, inner, back, rfl, cuts⟩
        · rw [found']
          exact .inr ⟨_, _, _, _, _, rfl, cuts.within cuts'⟩

/-- The innermost call of a spelled formula. -/
theorem innermost_textOf {bs : List Block} (h : Spelled bs) (closed : Closed (Block.tokens bs)) :
    (ofText (Block.textOf bs)).innermost = .ok none ∨
      ∃ site front gap inner back, (ofText (Block.textOf bs)).innermost = .ok (some site) ∧
        CallSite.Cuts site bs front gap inner back := by
  rw [h.outline, innermost]
  exact innermostFrom_outline _ h.valid closed

end Outline

end FormulaSheet
