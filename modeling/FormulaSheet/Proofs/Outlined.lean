import FormulaSheet.Proofs.Seams
import FormulaSheet.Proofs.Spelling

/-!
# The outline of spelled formulas

The outline of a text is found by its characters, its tokens by reading.  In
a spelled text the two agree: every name stands in the outline as a reference
or a call, and no part of a number, a quoted text or a sign does.

* `Item.ofText_append` — items are cut between a text and what ends its words;
* `Inert` — items among which no word is an identifier;
* `Spelled.outline` — the outline of a spelled text, block by block.
-/

namespace FormulaSheet

namespace Item

/-- What follows does not begin with a word character. -/
def NotWord (rest : List Char) : Prop :=
  ∀ c more, rest = c :: more → Character.isWord c = false

theorem NotWord.noWordFirst {rest : List Char} (h : NotWord rest) :
    NoWordFirst (ofText rest) := by
  cases rest with
  | nil => simp [ofText, readFrom, flush, NoWordFirst]
  | cons c more =>
      rw [ofText, readFrom_mark rfl (h c more rfl)]
      exact noWordFirst_mark c _

/-- Code is cut into items for itself where no word goes on behind it. -/
theorem ofText_append {cs rest : List Char} (hcode : ∀ c ∈ cs, ¬ (c = '"' ∨ c = '\''))
    (h : NotWord rest) : ofText (cs ++ rest) = ofText cs ++ ofText rest := by
  rw [ofText_append_join (Quoting.afterAll_code hcode)]
  exact (fitting_ofText cs).join_eq_append (.inr h.noWordFirst)

/-- The characters of an escaped code are digits, but for a plus sign. -/
theorem digits_of_escapedCode? {u v w x c : Char} (h : escapedCode? u v w x = some c) :
    ((∃ n, Character.hexValue? u = some n) ∨ u = '+') ∧
      ∀ d ∈ [v, w, x], ∃ n, Character.hexValue? d = some n := by
  have digits : ∀ {cs : List Char} {m n : Nat}, Character.hexNumber? m cs = some n →
      ∀ d ∈ cs, ∃ k, Character.hexValue? d = some k := by
    intro cs
    induction cs with
    | nil => simp
    | cons c cs ih =>
        intro m n h
        unfold Character.hexNumber? at h
        split at h
        · rename_i k hk
          exact List.forall_mem_cons.mpr ⟨⟨k, hk⟩, ih h⟩
        · cases h
  unfold escapedCode? at h
  dsimp only at h
  split at h
  · rename_i n hn
    split at hn
    · rename_i plus
      exact ⟨.inr plus, digits hn⟩
    · have all := List.forall_mem_cons.mp (digits hn)
      exact ⟨.inl all.1, all.2⟩
  · cases h

/-- Between quotes everything is hidden. -/
theorem readFrom_quotes {q : Char} (hq : q = '"' ∨ q = '\'') {body s : List Char}
    (h : Quotes q body s) (rest : List Char) :
    readFrom (.inside q) [] [] (body ++ q :: rest) =
      body.map .hidden ++ .mark q :: ofText rest := by
  have hidden : ∀ {c : Char} (cs : List Char), c ≠ q → c ≠ '\\' →
      readFrom (.inside q) [] [] (c :: cs) = .hidden c :: readFrom (.inside q) [] [] cs := by
    intro c cs hc hslash
    rw [readFrom_hidden (by simp [Quoting.hides, hc])]
    simp [flush, Quoting.after, hc, hslash]
  have escaped : ∀ (c : Char) (cs : List Char),
      readFrom (.inside q) [] [] ('\\' :: c :: cs) =
        .hidden '\\' :: .hidden c :: readFrom (.inside q) [] [] cs := by
    intro c cs
    rw [readFrom_hidden (by simp [Quoting.hides])]
    simp only [Quoting.after, if_true]
    rw [readFrom_hidden (by simp [Quoting.hides])]
    simp [flush, Quoting.after]
  have digit : ∀ {c : Char}, (∃ n, Character.hexValue? c = some n) ∨ c = '+' →
      c ≠ q ∧ c ≠ '\\' := by
    rintro c (⟨n, hn⟩ | rfl)
    · refine ⟨?_, ?_⟩
      · intro eq
        subst eq
        rcases hq with rfl | rfl <;> exact absurd hn (by simp [Character.hexValue?])
      · intro eq
        subst eq
        exact absurd hn (by simp [Character.hexValue?])
    · rcases hq with rfl | rfl <;> decide
  induction h with
  | nil =>
      have hplain : Character.isWord q = false ∧ q ≠ '\\' := by
        rcases hq with rfl | rfl <;> decide
      rw [List.nil_append, readFrom_mark (by simp [Quoting.hides, hplain.2]) hplain.1]
      simp [flush, Quoting.after, hplain.2]
      rfl
  | plain hc hslash _ ih =>
      rw [List.cons_append, hidden _ hc hslash, ih]
      rfl
  | escape _ _ ih =>
      rw [List.cons_append, List.cons_append, escaped, ih]
      rfl
  | @code u v w x c body s hcode _ ih =>
      obtain ⟨hu, hdigits⟩ := digits_of_escapedCode? hcode
      have hv := digit (.inl (hdigits v (by simp)))
      have hw := digit (.inl (hdigits w (by simp)))
      have hx := digit (.inl (hdigits x (by simp)))
      simp only [List.cons_append]
      rw [escaped, hidden _ (digit hu).1 (digit hu).2, hidden _ hv.1 hv.2, hidden _ hw.1 hw.2,
        hidden _ hx.1 hx.2, ih]
      rfl

end Item

/-- Items among which no word is made like an identifier, unless it follows a
point. -/
def Inert : (afterPoint : Bool) → List Item → Prop
  | _, [] => True
  | afterPoint, .word w :: items =>
    (afterPoint = true ∨ isIdentifier w = false) ∧ Inert false items
  | _, .mark c :: items => Inert (c == '.') items
  | _, .hidden _ :: items => Inert false items

/-- Inert items refer to nothing and call nothing. -/
theorem Inert.readFrom {afterPoint : Bool} {items : List Item} (h : Inert afterPoint items) :
    ∃ after, ∀ more, Piece.readFrom afterPoint [] (items ++ more) =
      items.map .plain ++ Piece.readFrom after [] more := by
  induction items generalizing afterPoint with
  | nil => exact ⟨afterPoint, fun more => rfl⟩
  | cons i items ih =>
      cases i with
      | word w =>
          obtain ⟨hw, hitems⟩ := h
          obtain ⟨after, hafter⟩ := ih hitems
          refine ⟨after, fun more => ?_⟩
          have plain : Piece.ofWord afterPoint w (items ++ more) = .plain (.word w) := by
            rcases hw with hw | hw <;> simp [Piece.ofWord, hw]
          rw [List.cons_append, Piece.readFrom_word, hafter, plain]
          rfl
      | mark c =>
          obtain ⟨after, hafter⟩ := ih h
          refine ⟨after, fun more => ?_⟩
          rw [List.cons_append, Piece.readFrom_mark, hafter]
          rfl
      | hidden c =>
          obtain ⟨after, hafter⟩ := ih h
          refine ⟨after, fun more => ?_⟩
          rw [List.cons_append, Piece.readFrom_hidden, hafter]
          rfl

/-- A word stays no identifier when it is lengthened. -/
theorem isIdentifier_append {w more : List Char} (hne : w ≠ []) (h : isIdentifier w = false) :
    isIdentifier (w ++ more) = false := by
  cases w with
  | nil => exact absurd rfl hne
  | cons c cs =>
      rw [List.cons_append]
      simp only [isIdentifier, List.all_append] at h ⊢
      rw [← Bool.and_assoc, h, Bool.false_and]

theorem isIdentifier_of_isDigit {c : Char} (h : c.isDigit = true) (cs : List Char) :
    isIdentifier (c :: cs) = false := by
  rw [isIdentifier, not_isNameStart_of_isDigit h, Bool.false_and]

/-- The word that is being read in a number does not become an identifier. -/
def Harmless (afterPoint : Bool) (word : List Char) : Prop :=
  afterPoint = true ∨ (word ≠ [] ∧ isIdentifier word.reverse = false)

theorem Harmless.inert_word {afterPoint : Bool} {word : List Char}
    (h : Harmless afterPoint word) {more : List Char} (hmore : ∀ c ∈ more, Character.isWord c)
    (hne : word.reverse ++ more ≠ []) :
    Inert afterPoint (Item.readFrom .code word [] more) := by
  rw [Item.readFrom_wordChars hmore word hne]
  refine ⟨?_, trivial⟩
  rcases h with h | ⟨hword, h⟩
  · exact .inl h
  · exact .inr (isIdentifier_append (by simpa using hword) h)

/-- A number's exponent is inert behind its digits and points. -/
theorem inert_exponent {exponent : List Char} (h : IsExponent exponent) {afterPoint : Bool}
    {word : List Char} (harmless : Harmless afterPoint word) :
    Inert afterPoint (Item.readFrom .code word [] exponent) := by
  cases h with
  | none =>
      cases word with
      | nil => exact trivial
      | cons c cs => exact harmless.inert_word (by simp) (by simp)
  | @some e sign digits he hsign hne hdigits =>
      have words : ∀ c ∈ digits, Character.isWord c = true :=
        fun c hc => isWord_of_isDigit (hdigits c hc)
      have letter : Character.isWord e = true := by rcases he with rfl | rfl <;> decide
      have apart : ∀ {c : Char}, Character.isWord c = false → ¬ (c = '"' ∨ c = '\'') →
          Inert afterPoint (Item.readFrom .code word [] (e :: c :: digits)) := by
        intro c hc hquote
        have hafter : Quoting.after .code c = .code := Quoting.after_code hquote
        have hplace : Quoting.after .code e = .code := by rcases he with rfl | rfl <;> decide
        obtain ⟨d, ds, rfl⟩ := List.exists_cons_of_ne_nil hne
        rw [Item.readFrom_word rfl letter, hplace, Item.readFrom_mark rfl hc, hafter,
          Item.readFrom_wordChars words [] (by simp)]
        have nonempty : (e :: word).isEmpty = false := rfl
        simp only [Item.flush, nonempty]
        refine ⟨?_, ?_, trivial⟩
        · rcases harmless with h | ⟨hword, h⟩
          · exact .inl h
          · rw [List.reverse_cons]
            exact .inr (isIdentifier_append (by simpa using hword) h)
        · exact .inr (isIdentifier_of_isDigit (hdigits d List.mem_cons_self) ds)
      simp only [List.mem_cons, List.not_mem_nil, or_false] at hsign
      rcases hsign with rfl | rfl | rfl
      · exact harmless.inert_word (List.forall_mem_cons.mpr ⟨letter, words⟩) (by simp)
      · exact apart (by decide) (by decide)
      · exact apart (by decide) (by decide)

/-- Digits and points with an exponent are inert. -/
theorem inert_body {body exponent : List Char}
    (hbody : ∀ d ∈ body, (d.isDigit || d == '.') = true) (hexponent : IsExponent exponent)
    {afterPoint : Bool} {word : List Char} (harmless : Harmless afterPoint word) :
    Inert afterPoint (Item.readFrom .code word [] (body ++ exponent)) := by
  induction body generalizing afterPoint word with
  | nil => exact inert_exponent hexponent harmless
  | cons d body ih =>
      have hrest : ∀ d ∈ body, (d.isDigit || d == '.') = true :=
        fun c hc => hbody c (List.mem_cons_of_mem _ hc)
      have hd := hbody d List.mem_cons_self
      rw [List.cons_append]
      by_cases hdigit : d.isDigit = true
      · have hword := isWord_of_isDigit hdigit
        have hafter : Quoting.after .code d = .code :=
          Quoting.after_code (Quoting.not_quote_of_isWord hword)
        rw [Item.readFrom_word rfl hword, hafter]
        refine ih hrest ?_
        rcases harmless with h | ⟨hne, h⟩
        · exact .inl h
        · rw [Harmless, List.reverse_cons]
          exact .inr ⟨by simp, isIdentifier_append (by simpa using hne) h⟩
      · have hpoint : d = '.' := by simpa [hdigit] using hd
        subst hpoint
        have rest : Inert true (Item.readFrom .code [] [] (body ++ exponent)) :=
          ih hrest (.inl rfl)
        rw [Item.readFrom_mark rfl (by decide)]
        cases word with
        | nil => exact rest
        | cons c cs =>
            refine ⟨?_, rest⟩
            rcases harmless with h | ⟨-, h⟩
            · exact .inl h
            · exact .inr h

/-- A number is inert. -/
theorem IsNumeral.inert {cs : List Char} (h : IsNumeral cs) : Inert false (Item.ofText cs) := by
  cases h with
  | @digit c body exponent hc hbody hexponent =>
      have hword := isWord_of_isDigit hc
      have hafter : Quoting.after .code c = .code :=
        Quoting.after_code (Quoting.not_quote_of_isWord hword)
      rw [Item.ofText, Item.readFrom_word rfl hword, hafter]
      exact inert_body hbody hexponent (.inr ⟨by simp, isIdentifier_of_isDigit hc []⟩)
  | @point c body exponent hc hbody hexponent =>
      rw [Item.ofText_mark (by decide) (by decide)]
      have whole : ∀ d ∈ c :: body, (d.isDigit || d == '.') = true :=
        List.forall_mem_cons.mpr ⟨by simp [hc], hbody⟩
      exact inert_body whole hexponent (.inl rfl)

namespace Block

/-- The items of a block. -/
def items : Block → List Item
  | blank c => [.mark c]
  | name w => [.word w]
  | number cs _ => Item.ofText cs
  | quoted q body _ => .mark q :: (body.map .hidden ++ [.mark q])
  | sign cs _ => cs.map .mark

/-- Whether a parenthesis opens next. -/
def opens : List Block → Bool
  | .blank _ :: bs => opens bs
  | .sign _ s :: _ => s == .openParen
  | _ => false

/-- What a name is in an outline, given the blocks after it. -/
def namePiece (w : List Char) (next : List Block) : Piece :=
  if isReserved (String.ofList w) then .plain (.word w)
  else if opens next then .callee w
  else .reference w

/-- The pieces of a block, given the blocks after it. -/
def pieces (b : Block) (next : List Block) : Outline :=
  match b with
  | name w => [namePiece w next]
  | b => b.items.map .plain

/-- The outline of blocks in a row. -/
def outline : List Block → Outline
  | [] => []
  | b :: bs => b.pieces bs ++ outline bs

/-- The text of a block is that of its items. -/
theorem flatMap_text_items (b : Block) : b.items.flatMap Item.text = b.text := by
  have each : ∀ (f : Char → Item) (cs : List Char), (∀ c, (f c).text = [c]) →
      (cs.map f).flatMap Item.text = cs := by
    intro f cs hf
    induction cs with
    | nil => rfl
    | cons c cs ih => rw [List.map_cons, List.flatMap_cons, hf, ih]; rfl
  cases b with
  | blank c => rfl
  | name w => simp [items, text, Item.text]
  | number cs x => exact Item.flatMap_text_ofText cs
  | quoted q body s =>
      have inner := each .hidden body fun _ => rfl
      simp [items, text, inner, Item.text]
  | sign cs s => exact each .mark cs fun _ => rfl

/-- The characters of a sign are marks. -/
theorem sign_marks {cs : List Char} {s : Symbol} (h : (cs, s) ∈ signs) :
    ∀ c ∈ cs, Character.isWord c = false ∧ ¬ (c = '"' ∨ c = '\'') ∧
      Character.isBlank c = false ∧ c ≠ '.' := by
  have all : signs.all (fun p => p.1.all fun c => Character.isWord c = false ∧
      ¬ (c = '"' ∨ c = '\'') ∧ Character.isBlank c = false ∧ c ≠ '.') = true := by
    decide +kernel
  intro c hc
  exact of_decide_eq_true (List.all_eq_true.mp (List.all_eq_true.mp all _ h) c hc)

/-- The characters of an exponent other than digits. -/
theorem exponent_chars {cs : List Char} (h : IsExponent cs) :
    ∀ c ∈ cs, c.isDigit = true ∨ c ∈ ['.', 'e', 'E', '+', '-'] := by
  cases h with
  | none => simp
  | some he hsign _ hdigits =>
      simp only [List.mem_cons, List.not_mem_nil, or_false] at hsign
      refine List.forall_mem_cons.mpr ⟨?_, List.forall_mem_append.mpr ⟨?_, ?_⟩⟩
      · rcases he with rfl | rfl <;> simp
      · rcases hsign with rfl | rfl | rfl <;> simp
      · exact fun c hc => .inl (hdigits c hc)

/-- The characters of a number other than digits. -/
theorem numeral_chars {cs : List Char} (h : IsNumeral cs) :
    ∀ c ∈ cs, c.isDigit = true ∨ c ∈ ['.', 'e', 'E', '+', '-'] := by
  have body : ∀ {c : Char}, (c.isDigit || c == '.') = true →
      c.isDigit = true ∨ c ∈ ['.', 'e', 'E', '+', '-'] := by
    intro c hc
    rcases Bool.or_eq_true_iff.mp hc with hc | hc
    · exact .inl hc
    · exact .inr (by simp [beq_iff_eq.mp hc])
  cases h with
  | digit hc hbody hexponent =>
      exact List.forall_mem_cons.mpr ⟨.inl hc,
        List.forall_mem_append.mpr ⟨fun c hc => body (hbody c hc), exponent_chars hexponent⟩⟩
  | point hc hbody hexponent =>
      exact List.forall_mem_cons.mpr ⟨by simp, List.forall_mem_cons.mpr ⟨.inl hc,
        List.forall_mem_append.mpr ⟨fun c hc => body (hbody c hc), exponent_chars hexponent⟩⟩⟩

/-- No character of a number is a quote. -/
theorem numeral_code {cs : List Char} (h : IsNumeral cs) : ∀ c ∈ cs, ¬ (c = '"' ∨ c = '\'') := by
  intro c hc
  rcases numeral_chars h c hc with hdigit | hother
  · rintro (rfl | rfl) <;> exact absurd hdigit (by decide)
  · rintro (rfl | rfl) <;> exact absurd hother (by decide)

/-- The items of a block are cut off for themselves. -/
theorem ofText_text_append {b : Block} {rest : List Char} (hvalid : b.Valid)
    (hfits : b.Fits rest) : Item.ofText (b.text ++ rest) = b.items ++ Item.ofText rest := by
  cases b with
  | blank c =>
      exact Item.ofText_mark (Character.isWord_of_isBlank hvalid)
        (Character.not_quote_of_isBlank hvalid) rest
  | name w =>
      have words := isWord_of_isIdentifier hvalid
      have code : ∀ c ∈ w, ¬ (c = '"' ∨ c = '\'') :=
        fun c hc => Quoting.not_quote_of_isWord (words c hc)
      have nonempty : w ≠ [] := text_ne_nil (b := .name w) hvalid
      rw [text, Item.ofText_append code fun c more eq => hfits.not_isWord eq, Item.ofText,
        Item.readFrom_wordChars words [] (by simpa using nonempty)]
      rfl
  | number cs x =>
      exact Item.ofText_append (numeral_code hvalid.1) fun c more eq => hfits.not_isWord eq
  | quoted q body s =>
      obtain ⟨hq, quotes⟩ := hvalid
      have hword : Character.isWord q = false := by rcases hq with rfl | rfl <;> decide
      have hafter : Quoting.after .code q = .inside q := by simp only [Quoting.after, if_pos hq]
      have inside := Item.readFrom_quotes hq quotes rest
      rw [text, Item.ofText, List.cons_append, Item.readFrom_mark rfl hword, hafter,
        List.append_assoc]
      simp only [List.cons_append, List.nil_append]
      rw [inside]
      simp [items, Item.flush]
  | sign cs s =>
      have marks := sign_marks hvalid
      have go : ∀ cs : List Char, (∀ c ∈ cs, Character.isWord c = false ∧
          ¬ (c = '"' ∨ c = '\'') ∧ Character.isBlank c = false ∧ c ≠ '.') →
          Item.ofText (cs ++ rest) = cs.map .mark ++ Item.ofText rest := by
        intro cs
        induction cs with
        | nil => intro _; rfl
        | cons c cs ih =>
            intro h
            have hc := h c List.mem_cons_self
            rw [List.cons_append, Item.ofText_mark hc.1 hc.2.1,
              ih fun d hd => h d (List.mem_cons_of_mem _ hd)]
            rfl
      exact go cs marks

end Block

/-- The items of a spelled text are those of its blocks. -/
theorem Spelled.items {bs : List Block} (h : Spelled bs) :
    Item.ofText (Block.textOf bs) = bs.flatMap Block.items := by
  induction bs with
  | nil => rfl
  | cons b bs ih =>
      obtain ⟨hvalid, hfits, hbs⟩ := h
      rw [Block.textOf_cons, Block.ofText_text_append hvalid hfits, ih hbs, List.flatMap_cons]

/-- The first item of a number is no gap and no parenthesis. -/
theorem IsNumeral.not_opens {cs : List Char} (h : IsNumeral cs) (more : List Item) :
    Piece.opens (Item.ofText cs ++ more) = false := by
  have begun : ∀ (place : Quoting) (word rest : List Char), word ≠ [] →
      ∃ w items, Item.readFrom place word [] rest = .word w :: items := by
    intro place word rest hword
    have nonempty : word.isEmpty = false := by simpa using hword
    induction rest generalizing place word with
    | nil => exact ⟨word.reverse, [], by simp [Item.readFrom, Item.flush, nonempty]⟩
    | cons c rest ih =>
        unfold Item.readFrom
        split
        · exact ⟨word.reverse, _, by rw [Item.readFrom_eq_append]; simp [Item.flush, nonempty]; rfl⟩
        · split
          · exact ih _ _ (by simp) rfl
          · exact ⟨word.reverse, _,
              by rw [Item.readFrom_eq_append]; simp [Item.flush, nonempty]; rfl⟩
  cases h with
  | digit hc _ _ =>
      rw [Item.ofText, Item.readFrom_word rfl (isWord_of_isDigit hc)]
      obtain ⟨w, items, eq⟩ := begun _ _ _ (List.cons_ne_nil _ _)
      rw [eq]
      rfl
  | point _ _ _ =>
      rw [Item.ofText_mark (by decide) (by decide)]
      rfl

/-- Blocks open a parenthesis where their items do. -/
theorem Spelled.opens {bs : List Block} (h : Spelled bs) :
    Piece.opens (bs.flatMap Block.items) = Block.opens bs := by
  induction bs with
  | nil => rfl
  | cons b bs ih =>
      obtain ⟨hvalid, hfits, hbs⟩ := h
      rw [List.flatMap_cons]
      cases b with
      | blank c =>
          have gap : Piece.isGap (.mark c) = true := hvalid
          rw [Block.opens, ← ih hbs]
          simp [Block.items, Piece.opens, gap]
      | name w => rfl
      | number cs x => exact hvalid.1.not_opens _
      | quoted q body s =>
          obtain ⟨hq, -⟩ := hvalid
          rcases hq with rfl | rfl <;> rfl
      | sign cs s =>
          have first : ∀ p ∈ signs, (p.1.head? == some '(') = (p.2 == .openParen) := by decide
          obtain ⟨c, more, rfl⟩ := List.exists_cons_of_ne_nil (Block.text_ne_nil hvalid)
          have gap : Piece.isGap (.mark c) = false :=
            (Block.sign_marks hvalid c List.mem_cons_self).2.2.1
          rw [Block.opens, ← first _ hvalid]
          simp [Block.items, Piece.opens, gap]

/-- Marks and hidden characters are plain, and no word behind them follows a
point. -/
theorem Piece.readFrom_plain {items : List Item}
    (h : ∀ i ∈ items, ∃ c, (i = .mark c ∧ c ≠ '.') ∨ i = .hidden c) (hne : items ≠ [])
    (afterPoint : Bool) (more : List Item) :
    readFrom afterPoint [] (items ++ more) = items.map .plain ++ readFrom false [] more := by
  induction items generalizing afterPoint with
  | nil => exact absurd rfl hne
  | cons i items ih =>
      have first : readFrom afterPoint [] (i :: (items ++ more)) =
          .plain i :: readFrom false [] (items ++ more) := by
        obtain ⟨c, ⟨rfl, hc⟩ | rfl⟩ := h i List.mem_cons_self
        · have notPoint : (c == '.') = false := by simpa using hc
          rw [readFrom_mark, notPoint]
        · rw [readFrom_hidden]
      rw [List.cons_append, first]
      cases items with
      | nil => rfl
      | cons j items =>
          rw [ih (fun k hk => h k (List.mem_cons_of_mem _ hk)) (by simp)]
          rfl

/-- The outline of a spelled text is that of its blocks, also behind a point
that belongs to a number. -/
theorem Spelled.readFrom_items {bs : List Block} (h : Spelled bs) {afterPoint : Bool}
    (hpoint : afterPoint = true → EndsWord (Block.textOf bs)) :
    Piece.readFrom afterPoint [] (bs.flatMap Block.items) = Block.outline bs := by
  induction bs generalizing afterPoint with
  | nil => rfl
  | cons b bs ih =>
      obtain ⟨hvalid, hfits, hbs⟩ := h
      have after : Piece.readFrom false [] (bs.flatMap Block.items) = Block.outline bs :=
        ih hbs (by simp)
      rw [List.flatMap_cons]
      cases b with
      | blank c =>
          have notPoint : c ≠ '.' := by
            intro eq
            subst eq
            exact absurd hvalid (by simp only [Block.Valid]; decide)
          rw [Piece.readFrom_plain (by simpa [Block.items] using notPoint) (by simp [Block.items]),
            after]
          rfl
      | name w =>
          have hident : isIdentifier w = true := hvalid
          have notAfter : afterPoint = false := Bool.eq_false_iff.mpr fun point =>
            not_endsWord_of_isIdentifier hident _ (hpoint point)
          simp only [Block.items, List.cons_append, List.nil_append]
          rw [Piece.readFrom_word, after, notAfter, Piece.ofWord, hbs.opens, hident]
          simp [Block.outline, Block.pieces, Block.namePiece]
      | number cs x =>
          have notAfter : afterPoint = false := Bool.eq_false_iff.mpr fun point =>
            hvalid.1.not_endsWord _ (hpoint point)
          obtain ⟨next, hnext⟩ := (notAfter ▸ hvalid.1.inert).readFrom
          rw [Block.items, hnext, ih hbs fun _ => hfits]
          rfl
      | quoted q body s =>
          obtain ⟨hq, -⟩ := hvalid
          have notPoint : q ≠ '.' := by rcases hq with rfl | rfl <;> decide
          rw [Piece.readFrom_plain ?_ (by simp [Block.items]), after]
          · rfl
          · intro i hi
            simp only [Block.items, List.mem_cons, List.mem_append, List.mem_map,
              List.not_mem_nil, or_false] at hi
            rcases hi with rfl | ⟨c, -, rfl⟩ | rfl
            · exact ⟨q, .inl ⟨rfl, notPoint⟩⟩
            · exact ⟨c, .inr rfl⟩
            · exact ⟨q, .inl ⟨rfl, notPoint⟩⟩
      | sign cs s =>
          have nonempty : cs ≠ [] := Block.text_ne_nil (b := .sign cs s) hvalid
          rw [Piece.readFrom_plain ?_ (by simpa [Block.items] using nonempty), after]
          · rfl
          · intro i hi
            obtain ⟨c, hc, rfl⟩ := List.mem_map.mp hi
            exact ⟨c, .inl ⟨rfl, (Block.sign_marks hvalid c hc).2.2.2⟩⟩

/-- The outline of a spelled text is that of its blocks. -/
theorem Spelled.outline {bs : List Block} (h : Spelled bs) :
    Outline.ofText (Block.textOf bs) = Block.outline bs := by
  rw [Outline.ofText, h.items, Piece.ofItems, h.readFrom_items (by simp)]

end FormulaSheet
