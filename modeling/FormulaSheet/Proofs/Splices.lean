import FormulaSheet.Proofs.JsonValue
import FormulaSheet.Proofs.Literal
import FormulaSheet.Proofs.Seams

/-!
# What a value adds to an outline

The literal of a value refers to nothing, calls nothing and opens no
parenthesis, and the quotes in it are closed.  Whatever the value is, the text
that is put in its place (`Value.splice`) therefore brings at most one opening
parenthesis with it, the one before a negative number, and no name.  A word may
still come about where the text that follows begins with one, as in `F()x` with
a result `true`.

* `Item.boundFrom` — how many parentheses open among items, and how many
  identifiers there are;
* `Piece.map_item_readFrom`, `Piece.bound_item` — items are found again in
  their outline, and count there as they do here;
* `Bare` — text that adds to neither;
* `Value.bare_literal` — literals are bare;
* `Item.boundFrom_splice_le` — what a value adds to the text that follows.
-/

namespace FormulaSheet

/-- What an escaped character is written with stays inside the quotes. -/
theorem Quoting.afterAll_escapeChar (c : Char) :
    Quoting.afterAll (.inside '"') (escapeChar c) = .inside '"' := by
  have digits : ∀ n, Quoting.after (.inside '"') (Character.hexDigit n) = .inside '"' := by
    have small : ∀ n < 16, Quoting.after (.inside '"') (Nat.digitChar n) = .inside '"' := by
      decide
    exact fun n => small _ (Nat.mod_lt _ (by decide))
  unfold escapeChar
  split
  · rfl
  · rfl
  · rfl
  · rfl
  · rfl
  · rename_i hquote hslash _ _ _
    split
    · have slash : Quoting.after (.inside '"') '\\' = .escaped '"' := by decide
      have letter : Quoting.after (.escaped '"') 'u' = .inside '"' := by decide
      simp [Character.fourHex, slash, letter, digits]
    · show (if c = '\\' then Quoting.escaped '"' else if c = '"' then .code else .inside '"') = _
      rw [if_neg hslash, if_neg hquote]

namespace Item

/-- Whether an item is a point. -/
def isPoint : Item → Bool
  | mark c => c == '.'
  | _ => false

/-- One for an opening parenthesis and for an identifier that is not reserved,
nothing for other items. -/
def bound (afterPoint : Bool) : Item → Nat
  | word w => if afterPoint || !isIdentifier w || isReserved (String.ofList w) then 0 else 1
  | mark c => if c = '(' then 1 else 0
  | hidden _ => 0

/-- How many items are opening parentheses or identifiers that are not
reserved. -/
def boundFrom : (afterPoint : Bool) → List Item → Nat
  | _, [] => 0
  | afterPoint, i :: is => i.bound afterPoint + boundFrom i.isPoint is

/-- Whether what follows items follows a point. -/
def pointAfter : (afterPoint : Bool) → List Item → Bool
  | afterPoint, [] => afterPoint
  | _, i :: is => pointAfter i.isPoint is

theorem boundFrom_append (afterPoint : Bool) (is js : List Item) :
    boundFrom afterPoint (is ++ js) =
      boundFrom afterPoint is + boundFrom (pointAfter afterPoint is) js := by
  induction is generalizing afterPoint with
  | nil => simp [boundFrom, pointAfter]
  | cons i is ih =>
      rw [List.cons_append, boundFrom, ih, boundFrom, pointAfter]
      omega

/-- Behind a point an identifier does not count. -/
theorem bound_le (afterPoint : Bool) (i : Item) : i.bound afterPoint ≤ i.bound false := by
  cases i with
  | word w =>
      simp only [bound]
      cases afterPoint
      · exact Nat.le_refl _
      · simp
  | mark c => exact Nat.le_refl _
  | hidden c => exact Nat.le_refl _

theorem boundFrom_le (afterPoint : Bool) (is : List Item) :
    boundFrom afterPoint is ≤ boundFrom false is := by
  cases is with
  | nil => exact Nat.le_refl _
  | cons i is => exact Nat.add_le_add_right (bound_le afterPoint i) _

/-- A word counts once at most. -/
theorem bound_word_le (afterPoint : Bool) (w : List Char) : (word w).bound afterPoint ≤ 1 := by
  simp only [bound]
  split <;> omega

/-- Where items are put before others, one word at most comes about. -/
theorem Fitting.boundFrom_join_le {place : Quoting} {is : List Item} (h : Fitting place is)
    (afterPoint : Bool) (js : List Item) :
    boundFrom afterPoint (join is js) ≤ boundFrom afterPoint is + boundFrom false js + 1 := by
  induction is generalizing place afterPoint with
  | nil =>
      have := boundFrom_le afterPoint js
      simp only [join_nil, boundFrom]
      omega
  | cons i is ih =>
      cases is with
      | cons k is =>
          have rest := ih h.2.2 i.isPoint
          rw [h.join_cons_cons, boundFrom, boundFrom]
          omega
      | nil =>
          have := boundFrom_le i.isPoint js
          rw [join_cons, join_nil]
          by_cases apart : i.meet js = i :: js
          · rw [apart, boundFrom, boundFrom, boundFrom]
            omega
          · -- two words become one
            obtain ⟨w, u, js, rfl, rfl⟩ : ∃ w u js', i = .word w ∧ js = .word u :: js' := by
              rw [meet_eq_cons_iff, not_or] at apart
              cases i with
              | word w =>
                  cases js with
                  | nil => exact absurd (by simp [NoWordFirst]) apart.2
                  | cons k js =>
                      cases k with
                      | word u => exact ⟨w, u, js, rfl, rfl⟩
                      | mark c => exact absurd (noWordFirst_mark c js) apart.2
                      | hidden c => exact absurd (by simp [NoWordFirst, isWord]) apart.2
              | mark c => exact absurd rfl apart.1
              | hidden c => exact absurd rfl apart.1
            have one := bound_word_le afterPoint (w ++ u)
            simp only [meet, boundFrom, isPoint]
            omega

/-- What is hidden does not count. -/
theorem boundFrom_hidden (afterPoint : Bool) (cs : List Char) :
    boundFrom afterPoint (cs.map hidden) = 0 := by
  induction cs generalizing afterPoint with
  | nil => rfl
  | cons c cs ih =>
      rw [List.map_cons, boundFrom, ih]
      rfl

/-- A digit before items is no identifier, nor is a word that it joins. -/
theorem boundFrom_digit_le {c : Char} (hc : c.isDigit = true) (is : List Item) :
    boundFrom false ((word [c]).meet is) ≤ boundFrom false is := by
  have none : ∀ cs, (word (c :: cs)).bound false = 0 := by
    intro cs
    simp [bound, isIdentifier_of_isDigit hc cs]
  cases is with
  | nil => simp [meet, boundFrom, none]
  | cons i is => cases i <;> simp [meet, boundFrom, none, isPoint]

end Item

namespace Piece

/-- The item that a piece is. -/
def item : Piece → Item
  | reference w => .word w
  | callee w => .word w
  | plain i => i

/-- What an item is, given whether it follows a point and what comes next. -/
def ofItem (afterPoint : Bool) (i : Item) (next : List Item) : Piece :=
  match i with
  | .word w => ofWord afterPoint w next
  | i => .plain i

theorem text_item (p : Piece) : p.item.text = p.text := by
  cases p <;> rfl

/-- The items of an outline have its text. -/
theorem flatMap_text_item (o : Outline) : (o.map item).flatMap Item.text = Outline.text o := by
  rw [List.flatMap_map, Outline.text]
  exact congrArg (o.flatMap ·) (funext text_item)

theorem readFrom_cons (afterPoint : Bool) (i : Item) (items : List Item) :
    readFrom afterPoint [] (i :: items) =
      ofItem afterPoint i items :: readFrom i.isPoint [] items := by
  cases i with
  | word w => exact readFrom_word afterPoint w items
  | mark c => exact readFrom_mark afterPoint c items
  | hidden c => exact readFrom_hidden afterPoint c items

@[simp] theorem item_ofItem (afterPoint : Bool) (i : Item) (next : List Item) :
    (ofItem afterPoint i next).item = i := by
  cases i with
  | word w =>
      simp only [ofItem, ofWord]
      split
      · rfl
      · split <;> rfl
  | mark c => rfl
  | hidden c => rfl

/-- A piece counts as its item does. -/
theorem bounds_ofItem (afterPoint : Bool) (i : Item) (next : List Item) :
    (if (ofItem afterPoint i next).bounds then 1 else 0) = i.bound afterPoint := by
  cases i with
  | word w =>
      simp only [ofItem, ofWord, Item.bound]
      split
      · rfl
      · split <;> rfl
  | mark c =>
      by_cases paren : c = '('
      · subst paren
        rfl
      · simp [ofItem, bounds, Item.bound, paren]
  | hidden c => rfl

/-- The items that are sorted are the items of the pieces. -/
theorem map_item_readFrom (afterPoint : Bool) (items : List Item) :
    (readFrom afterPoint [] items).map item = items := by
  induction items generalizing afterPoint with
  | nil => rfl
  | cons i items ih => rw [readFrom_cons, List.map_cons, item_ofItem, ih]

/-- As many pieces count as items do. -/
theorem length_filter_bounds (afterPoint : Bool) (items : List Item) :
    ((readFrom afterPoint [] items).filter bounds).length = Item.boundFrom afterPoint items := by
  induction items generalizing afterPoint with
  | nil => rfl
  | cons i items ih =>
      rw [readFrom_cons, ← List.countP_eq_length_filter, List.countP_cons,
        List.countP_eq_length_filter, ih, bounds_ofItem, Item.boundFrom, Nat.add_comm]

/-- A piece counts as its item does where it stands. -/
theorem bound_item {afterPoint : Bool} {items : List Item} {front back : Outline} {p : Piece}
    (h : readFrom afterPoint [] items = front ++ p :: back) :
    p.item.bound (Item.pointAfter afterPoint (front.map item)) = if p.bounds then 1 else 0 := by
  induction front generalizing afterPoint items with
  | nil =>
      cases items with
      | nil => cases h
      | cons i items =>
          rw [readFrom_cons] at h
          obtain ⟨rfl, -⟩ := List.cons.inj h
          rw [item_ofItem, bounds_ofItem]
          rfl
  | cons q front ih =>
      cases items with
      | nil => cases h
      | cons i items =>
          rw [readFrom_cons] at h
          obtain ⟨rfl, rest⟩ := List.cons.inj h
          rw [List.map_cons, item_ofItem]
          exact ih rest

end Piece

/-- The items of a text are those of the pieces of its outline. -/
theorem Outline.map_item_ofText (cs : List Char) :
    (ofText cs).map Piece.item = Item.ofText cs :=
  Piece.map_item_readFrom false (Item.ofText cs)

/-- An outline has the text that it is of. -/
theorem Outline.text_ofText (cs : List Char) : text (ofText cs) = cs := by
  rw [← Piece.flatMap_text_item, map_item_ofText, Item.flatMap_text_ofText]

/-- Text that neither names anything nor opens a parenthesis, and leaves no
quotes open. -/
structure Bare (cs : List Char) : Prop where
  closed : Quoting.afterAll .code cs = .code
  bound : Item.boundFrom false (Item.ofText cs) = 0

namespace Bare

theorem nil : Bare [] := ⟨rfl, rfl⟩

/-- A mark before bare text. -/
theorem mark {c : Char} {cs : List Char} (h : Bare cs) (hword : Character.isWord c = false)
    (hquote : ¬ (c = '"' ∨ c = '\'')) (hparen : c ≠ '(') : Bare (c :: cs) where
  closed := by
    rw [Quoting.afterAll_cons, Quoting.after_code hquote]
    exact h.closed
  bound := by
    rw [Item.ofText_mark hword hquote, Item.boundFrom]
    have rest := Item.boundFrom_le (Item.mark c).isPoint (Item.ofText cs)
    rw [h.bound] at rest
    simp only [Item.bound, if_neg hparen]
    omega

/-- Bare texts in a row, where no word meets a word. -/
theorem append {cs ds : List Char} (h : Bare cs) (h' : Bare ds)
    (apart : Item.NoWordFirst (Item.ofText ds)) : Bare (cs ++ ds) where
  closed := by rw [Quoting.afterAll_append, h.closed, h'.closed]
  bound := by
    rw [Item.ofText_append_join h.closed, (Item.fitting_ofText cs).join_eq_append (.inr apart),
      Item.boundFrom_append, h.bound]
    have rest := Item.boundFrom_le (Item.pointAfter false (Item.ofText cs)) (Item.ofText ds)
    rw [h'.bound] at rest
    omega

/-- Digits and points are bare. -/
theorem numeral {cs : List Char} (h : ∀ c ∈ cs, c.isDigit = true ∨ c = '.') : Bare cs where
  closed := by
    refine Quoting.afterAll_code fun c hc => ?_
    rintro (rfl | rfl) <;> exact absurd (h _ hc) (by decide)
  bound := by
    induction cs with
    | nil => rfl
    | cons c cs ih =>
        obtain ⟨hc, hcs⟩ := List.forall_mem_cons.mp h
        have rest := ih hcs
        rcases hc with hc | rfl
        · have hword := isWord_of_isDigit hc
          have alone : Item.ofChar .code c = .word [c] := by
            simp [Item.ofChar, Quoting.hides, hword]
          rw [Item.ofText, Item.readFrom_cons, alone,
            Quoting.after_code (Quoting.not_quote_of_isWord hword)]
          exact Nat.le_zero.mp (rest ▸ Item.boundFrom_digit_le hc (Item.ofText cs))
        · have behind := Item.boundFrom_le true (Item.ofText cs)
          rw [rest] at behind
          rw [Item.ofText_mark (by decide) (by decide), Item.boundFrom]
          simpa [Item.bound, Item.isPoint] using behind

/-- Quoted text is bare. -/
theorem quote (cs : List Char) : Bare (FormulaSheet.quote cs) := by
  have opened : Quoting.after .code '"' = .inside '"' := by decide
  have inside : Quoting.afterAll (.inside '"') (cs.flatMap escapeChar) = .inside '"' := by
    induction cs with
    | nil => rfl
    | cons c cs ih =>
        rw [List.flatMap_cons, Quoting.afterAll_append, Quoting.afterAll_escapeChar, ih]
  have items : Item.ofText (FormulaSheet.quote cs) =
      .mark '"' :: ((cs.flatMap escapeChar).map .hidden ++ [.mark '"']) := by
    have body := Item.readFrom_quotes (.inl rfl) (quotes_escapeChar cs) []
    rw [FormulaSheet.quote, List.cons_append, Item.ofText, Item.readFrom_cons, opened, body]
    rfl
  refine ⟨?_, ?_⟩
  · rw [FormulaSheet.quote, List.cons_append, Quoting.afterAll_cons, opened,
      Quoting.afterAll_append, inside]
    decide
  · rw [items, Item.boundFrom, Item.boundFrom_append, Item.boundFrom_hidden]
    rfl

/-- Bare texts in a list, with a bracket behind them. -/
theorem listed {ts : List (List Char)} (h : ∀ t ∈ ts, Bare t) {c : Char}
    (hword : Character.isWord c = false) (hquote : ¬ (c = '"' ∨ c = '\'')) (hparen : c ≠ '(') :
    Bare (Value.listed ts ++ [c]) := by
  have first : ∀ {d : Char} (cs : List Char), Character.isWord d = false →
      ¬ (d = '"' ∨ d = '\'') → Item.NoWordFirst (Item.ofText (d :: cs)) := by
    intro d cs hword hquote
    rw [Item.ofText_mark hword hquote]
    exact Item.noWordFirst_mark d _
  have more : ∀ ts : List (List Char), (∀ t ∈ ts, Bare t) →
      Bare (ts.flatMap (fun t => ',' :: ' ' :: t) ++ [c]) ∧
        Item.NoWordFirst (Item.ofText (ts.flatMap (fun t => ',' :: ' ' :: t) ++ [c])) := by
    intro ts
    induction ts with
    | nil => exact fun _ => ⟨nil.mark hword hquote hparen, first [] hword hquote⟩
    | cons t ts ih =>
        intro h
        obtain ⟨ht, hts⟩ := List.forall_mem_cons.mp h
        obtain ⟨rest, apart⟩ := ih hts
        simp only [List.flatMap_cons, List.cons_append, List.append_assoc]
        refine ⟨?_, first _ (by decide) (by decide)⟩
        exact ((ht.append rest apart).mark (by decide) (by decide) (by decide)).mark (by decide)
          (by decide) (by decide)
  cases ts with
  | nil => exact (more [] (by simp)).1
  | cons t ts =>
      obtain ⟨ht, hts⟩ := List.forall_mem_cons.mp h
      obtain ⟨rest, apart⟩ := more ts hts
      rw [Value.listed, List.append_assoc]
      exact ht.append rest apart

end Bare

/-- The text of a number is bare. -/
theorem Number.bare_text (x : Float) : Bare (Number.text x) := by
  rcases text_cases x with name | ⟨sign, cs, signed, body⟩
  · rw [name]
    exact ⟨by decide, by decide⟩
  · have bare : Bare cs := by
      rcases body with rfl | ⟨-, digits⟩
      · exact ⟨by decide, by decide⟩
      · exact .numeral digits
    rw [signed]
    cases sign with
    | negative => exact bare.mark (by decide) (by decide) (by decide)
    | positive => exact bare

namespace Value

/-- The literal of a value is bare. -/
theorem bare_literal (v : Value) : Bare v.literal := by
  have words : ∀ w ∈ ["null", "true", "false"], Bare w.toList := by
    intro w hw
    simp only [List.mem_cons, List.not_mem_nil, or_false] at hw
    rcases hw with rfl | rfl | rfl <;> exact ⟨by decide, by decide⟩
  induction v using inductionOn with
  | null =>
      rw [literal_null]
      exact words _ (by simp)
  | bool b =>
      rw [literal_bool]
      cases b <;> exact words _ (by simp [boolText])
  | number x =>
      rw [literal_number]
      exact Number.bare_text x.float
  | text s =>
      rw [literal_text]
      exact .quote s.toList
  | array vs ih =>
      rw [literal_array]
      refine Bare.mark (Bare.listed ?_ (by decide) (by decide) (by decide)) (by decide) (by decide)
        (by decide)
      intro t ht
      obtain ⟨v, hv, rfl⟩ := List.mem_map.mp ht
      exact ih v hv
  | object fs ih =>
      rw [literal_object]
      refine Bare.mark (Bare.listed ?_ (by decide) (by decide) (by decide)) (by decide) (by decide)
        (by decide)
      intro t ht
      obtain ⟨f, hf, rfl⟩ := List.mem_map.mp ht
      have value := ((ih f hf).mark (c := ' ') (by decide) (by decide) (by decide)).mark
        (c := ':') (by decide) (by decide) (by decide)
      refine (Bare.quote f.1.toList).append value ?_
      rw [Item.ofText_mark (by decide) (by decide)]
      exact Item.noWordFirst_mark ':' _

/-- A literal begins with a character that is no blank. -/
theorem exists_literal_eq_cons (v : Value) :
    ∃ c cs, v.literal = c :: cs ∧ Character.isBlank c = false := by
  cases v with
  | null => exact ⟨'n', _, literal_null, by decide⟩
  | bool b =>
      cases b with
      | false => exact ⟨'f', _, literal_bool false, by decide⟩
      | true => exact ⟨'t', _, literal_bool true, by decide⟩
  | number x =>
      rw [literal_number]
      rcases Number.text_cases x.float with name | ⟨sign, cs, signed, body⟩
      · exact ⟨'N', _, name, by decide⟩
      · rw [signed]
        cases sign with
        | negative => exact ⟨'-', cs, rfl, by decide⟩
        | positive =>
            rcases body with rfl | ⟨hne, digits⟩
            · exact ⟨'I', _, rfl, by decide⟩
            · obtain ⟨c, cs, rfl⟩ := List.exists_cons_of_ne_nil hne
              refine ⟨c, cs, rfl, ?_⟩
              rcases digits c List.mem_cons_self with digit | rfl
              · exact not_isBlank_of_isWord (isWord_of_isDigit digit)
              · decide
  | text s => exact ⟨'"', _, literal_text s, by decide⟩
  | array vs => exact ⟨'[', _, literal_array vs, by decide⟩
  | object fs => exact ⟨'\x7b', _, literal_object fs, by decide⟩

/-- A value is written as its literal, in parentheses if it begins with a minus
sign. -/
theorem splice_cases (v : Value) :
    ((∃ cs, v.literal = '-' :: cs) ∧ v.splice = '(' :: (v.literal ++ [')'])) ∨
      (∀ cs, v.literal ≠ '-' :: cs) ∧ v.splice = v.literal := by
  unfold splice
  split
  · rename_i cs eq
    exact .inl ⟨⟨cs, eq⟩, by rw [eq]; rfl⟩
  · rename_i other
    exact .inr ⟨other, rfl⟩

/-- No quotes are left open by a value. -/
theorem closed_splice (v : Value) : Quoting.afterAll .code v.splice = .code := by
  have closed := v.bare_literal.closed
  rcases v.splice_cases with ⟨-, eq⟩ | ⟨-, eq⟩
  · rw [eq, Quoting.afterAll_cons, Quoting.afterAll_append, Quoting.after_code (by decide), closed]
    decide
  · rw [eq, closed]

/-- The items of a value's text. -/
theorem ofText_splice (v : Value) :
    ((∃ cs, v.literal = '-' :: cs) ∧
        Item.ofText v.splice = .mark '(' :: (Item.ofText v.literal ++ [.mark ')'])) ∨
      (∀ cs, v.literal ≠ '-' :: cs) ∧ Item.ofText v.splice = Item.ofText v.literal := by
  rcases v.splice_cases with ⟨minus, eq⟩ | ⟨plain, eq⟩
  · refine .inl ⟨minus, ?_⟩
    have behind : Item.ofText [')'] = [.mark ')'] := by decide
    rw [eq, Item.ofText_mark (by decide) (by decide),
      Item.ofText_append_join v.bare_literal.closed, behind,
      (Item.fitting_ofText _).join_eq_append (.inr (Item.noWordFirst_mark ')' []))]
  · exact .inr ⟨plain, by rw [eq]⟩

end Value

namespace Item

/-- A value adds one at most to the text that follows. -/
theorem boundFrom_splice_le (v : Value) (afterPoint : Bool) (rest : List Char) :
    boundFrom afterPoint (ofText (v.splice ++ rest)) ≤ boundFrom false (ofText rest) + 1 := by
  rw [ofText_append_join v.closed_splice]
  have bare := v.bare_literal.bound
  rcases v.ofText_splice with ⟨-, eq⟩ | ⟨-, eq⟩
  · have fitting := fitting_ofText v.splice
    have last : ∀ i ∈ (ofText v.splice).getLast?, i.isWord = false := by
      intro i hi
      rw [eq, ← List.cons_append, List.getLast?_concat] at hi
      cases hi
      rfl
    have inner : boundFrom false (ofText v.literal ++ ([.mark ')'] ++ ofText rest)) =
        boundFrom false (ofText rest) := by
      rw [boundFrom_append, bare, Nat.zero_add]
      exact Nat.zero_add _
    rw [fitting.join_eq_append (.inl last), eq, List.cons_append, List.append_assoc]
    change 1 + boundFrom false _ ≤ _
    rw [inner, Nat.add_comm]
  · have joined := (fitting_ofText v.splice).boundFrom_join_le afterPoint (ofText rest)
    have none := boundFrom_le afterPoint (ofText v.splice)
    rw [eq, bare] at none
    rw [eq] at joined ⊢
    omega

end Item

end FormulaSheet
