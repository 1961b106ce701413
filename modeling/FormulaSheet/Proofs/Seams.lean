import FormulaSheet.Proofs.Scanning

/-!
# Texts put together

A text is cut into items from left to right.  Here the cut is described from
right to left: a character is put before the items of the rest, and joins the
word that they begin with if it is part of a word itself.  So the items of two
texts in a row are those of the one before those of the other, with one word
where a word meets a word.

This is all that happens where a text is changed in the middle, as long as the
part that is put in leaves no quotes open.  The items that a text is cut into
fit together (`Item.Fitting`), and items that fit together are cut out of their
text again, so what stands on either side of the change stays as it is.

* `Item.readFrom_cons`, `Item.readFrom_append_join` — the cut from right to left;
* `Item.Fitting` — items that a text can be cut into;
* `Item.fitting_readFrom`, `Item.Fitting.readFrom` — they are cut out of their text.
-/

namespace FormulaSheet

namespace Quoting

/-- Where the text behind `cs` stands. -/
def afterAll (place : Quoting) (cs : List Char) : Quoting := cs.foldl after place

/-- A place that a text can come to: quotes are opened by two characters
only. -/
def Proper : Quoting → Prop
  | code => True
  | inside q => q = '"' ∨ q = '\''
  | escaped q => q = '"' ∨ q = '\''

/-- Code is a proper place. -/
theorem proper_code : Proper code := trivial

/-- A character leads from a proper place to one. -/
theorem Proper.after {place : Quoting} (h : place.Proper) (c : Char) :
    (place.after c).Proper := by
  cases place with
  | code =>
      show Proper (if c = '"' ∨ c = '\'' then inside c else code)
      split
      · assumption
      · trivial
  | inside q =>
      show Proper (if c = '\\' then escaped q else if c = q then code else inside q)
      split
      · exact h
      · split
        · trivial
        · exact h
  | escaped q => exact h

/-- So do several. -/
theorem Proper.afterAll {place : Quoting} (h : place.Proper) (cs : List Char) :
    (place.afterAll cs).Proper := by
  induction cs generalizing place with
  | nil => exact h
  | cons c cs ih => exact ih (h.after c)

/-- What is not hidden and no quote stands outside of quotes. -/
theorem Proper.eq_code {place : Quoting} (h : place.Proper) {c : Char}
    (shown : place.hides c = false) (hc : ¬ (c = '"' ∨ c = '\'')) : place = .code := by
  cases place with
  | code => rfl
  | inside q =>
      have eq : c = q := by
        simp only [hides, Bool.or_eq_false_iff, bne_eq_false_iff_eq] at shown
        exact shown.2
      subst eq
      exact absurd h hc
  | escaped q => cases shown

@[simp] theorem afterAll_nil (place : Quoting) : place.afterAll [] = place := rfl

@[simp] theorem afterAll_cons (place : Quoting) (c : Char) (cs : List Char) :
    place.afterAll (c :: cs) = (place.after c).afterAll cs := rfl

/-- The second part of a text goes on from the place where the first leaves. -/
theorem afterAll_append (place : Quoting) (cs ds : List Char) :
    place.afterAll (cs ++ ds) = (place.afterAll cs).afterAll ds := List.foldl_append

/-- Outside of quotes only a quote leads into them. -/
theorem after_code {c : Char} (hc : ¬ (c = '"' ∨ c = '\'')) : Quoting.after .code c = .code := by
  simp only [Quoting.after, if_neg hc]

/-- No character of words is a quote. -/
theorem not_quote_of_isWord {c : Char} (h : Character.isWord c = true) :
    ¬ (c = '"' ∨ c = '\'') := by
  rintro (rfl | rfl) <;> exact absurd h (by decide)

/-- Text without quotes leaves none open. -/
theorem afterAll_code {cs : List Char} (h : ∀ c ∈ cs, ¬ (c = '"' ∨ c = '\'')) :
    Quoting.afterAll .code cs = .code := by
  induction cs with
  | nil => rfl
  | cons c cs ih =>
      obtain ⟨hc, hcs⟩ := List.forall_mem_cons.mp h
      rw [afterAll_cons, after_code hc, ih hcs]

end Quoting

namespace Item

/-- Whether an item is a word. -/
def isWord : Item → Bool
  | word _ => true
  | _ => false

/-- The item that a character is by itself. -/
def ofChar (place : Quoting) (c : Char) : Item :=
  if place.hides c then hidden c else if Character.isWord c then word [c] else mark c

/-- Items with another before them, which joins a word that they begin with if
it is a word itself. -/
def meet : Item → List Item → List Item
  | word w, word u :: is => word (w ++ u) :: is
  | i, is => i :: is

/-- Items in a row with others. -/
def join (is js : List Item) : List Item := is.foldr meet js

/-- Items that do not begin with a word. -/
def NoWordFirst (is : List Item) : Prop := ∀ i ∈ is.head?, i.isWord = false

@[simp] theorem join_nil (js : List Item) : join [] js = js := rfl

@[simp] theorem join_cons (i : Item) (is js : List Item) :
    join (i :: is) js = i.meet (join is js) := rfl

/-- An item that is no word stands for itself. -/
theorem meet_of_not_word {i : Item} (h : i.isWord = false) (is : List Item) :
    i.meet is = i :: is := by
  cases i with
  | word w => cases h
  | mark c => rfl
  | hidden c => rfl

/-- So does any item before what begins with no word. -/
theorem meet_of_noWordFirst (i : Item) {is : List Item} (h : NoWordFirst is) :
    i.meet is = i :: is := by
  cases i with
  | word w =>
      cases is with
      | nil => rfl
      | cons j is =>
          cases j with
          | word u => cases h _ rfl
          | mark c => rfl
          | hidden c => rfl
  | mark c => rfl
  | hidden c => rfl

/-- An item stays apart from what follows it if one of them is no word. -/
theorem meet_eq_cons_iff {i : Item} {is : List Item} :
    i.meet is = i :: is ↔ i.isWord = false ∨ NoWordFirst is := by
  constructor
  · intro apart
    cases i with
    | word w =>
        right
        intro j hj
        cases is with
        | nil => cases hj
        | cons k is =>
            cases hj
            cases j with
            | word u =>
                have lengths := congrArg List.length apart
                simp [meet] at lengths
            | mark c => rfl
            | hidden c => rfl
    | mark c => exact .inl rfl
    | hidden c => exact .inl rfl
  · rintro (h | h)
    · exact meet_of_not_word h is
    · exact meet_of_noWordFirst i h

/-- Joining a word in two parts is joining it whole. -/
theorem join_meet (i : Item) (is js : List Item) :
    join (i.meet is) js = i.meet (join is js) := by
  cases i with
  | word w =>
      cases is with
      | nil => rfl
      | cons j is =>
          cases j with
          | word u =>
              change (word (w ++ u)).meet (join is js) = (word w).meet ((word u).meet (join is js))
              cases join is js with
              | nil => rfl
              | cons k ks => cases k <;> simp [meet]
          | mark c => rfl
          | hidden c => rfl
  | mark c => rfl
  | hidden c => rfl

/-- A mark is no word. -/
theorem noWordFirst_mark (c : Char) (is : List Item) : NoWordFirst (.mark c :: is) := by
  intro i hi
  cases hi
  rfl

/-- A word that is being read goes before what is read next. -/
theorem readFrom_pending (place : Quoting) {word : List Char} (hne : word ≠ [])
    (cs : List Char) :
    readFrom place word [] cs = (Item.word word.reverse).meet (readFrom place [] [] cs) := by
  have flushed : ∀ {word : List Char}, word ≠ [] → (flush word []).reverse =
      [Item.word word.reverse] := by
    intro word hne
    cases word with
    | nil => exact absurd rfl hne
    | cons c word => rfl
  induction cs generalizing place word with
  | nil =>
      rw [readFrom, flushed hne]
      rfl
  | cons c cs ih =>
      cases hhides : place.hides c with
      | true =>
          rw [readFrom_hidden hhides, readFrom_hidden hhides, flushed hne]
          rfl
      | false =>
          cases hword : Character.isWord c with
          | true =>
              rw [readFrom_word hhides hword, readFrom_word hhides hword,
                ih _ (List.cons_ne_nil c word), ih _ (List.cons_ne_nil c [])]
              cases readFrom (place.after c) [] [] cs with
              | nil => simp [meet]
              | cons i is => cases i <;> simp [meet]
          | false =>
              rw [readFrom_mark hhides hword, readFrom_mark hhides hword, flushed hne]
              rfl

/-- A character goes before what is read next. -/
theorem readFrom_cons (place : Quoting) (c : Char) (cs : List Char) :
    readFrom place [] [] (c :: cs) =
      (ofChar place c).meet (readFrom (place.after c) [] [] cs) := by
  unfold ofChar
  cases hhides : place.hides c with
  | true =>
      rw [readFrom_hidden hhides, if_pos rfl]
      rfl
  | false =>
      cases hword : Character.isWord c with
      | true =>
          rw [readFrom_word hhides hword, readFrom_pending _ (by simp)]
          rfl
      | false =>
          rw [readFrom_mark hhides hword, if_neg (by simp), if_neg (by simp)]
          rfl

/-- The items of two texts in a row. -/
theorem readFrom_append_join (place : Quoting) (cs ds : List Char) :
    readFrom place [] [] (cs ++ ds) =
      join (readFrom place [] [] cs) (readFrom (place.afterAll cs) [] [] ds) := by
  induction cs generalizing place with
  | nil => rfl
  | cons c cs ih =>
      rw [List.cons_append, readFrom_cons, ih, readFrom_cons, join_meet]
      rfl

/-- The items of two texts in a row, the first of which leaves no quotes
open. -/
theorem ofText_append_join {cs : List Char} (closed : Quoting.afterAll .code cs = .code)
    (ds : List Char) : ofText (cs ++ ds) = join (ofText cs) (ofText ds) := by
  rw [ofText, readFrom_append_join, closed]
  rfl

/-- Word characters are one item. -/
theorem readFrom_wordChars {w : List Char} (hw : ∀ c ∈ w, Character.isWord c = true)
    (word : List Char) (hne : word.reverse ++ w ≠ []) :
    readFrom .code word [] w = [.word (word.reverse ++ w)] := by
  induction w generalizing word with
  | nil =>
      have nonempty : word ≠ [] := by simpa using hne
      simp [readFrom, flush, nonempty]
  | cons c w ih =>
      obtain ⟨hc, hw⟩ := List.forall_mem_cons.mp hw
      rw [readFrom_word rfl hc, Quoting.after_code (Quoting.not_quote_of_isWord hc),
        ih hw _ (by simp)]
      simp

/-- Whether a text can be cut so that an item stands at a place. -/
def Fits (place : Quoting) : Item → Prop
  | word w => place = .code ∧ w ≠ [] ∧ ∀ c ∈ w, Character.isWord c = true
  | mark c => place.hides c = false ∧ Character.isWord c = false
  | hidden c => place.hides c = true

/-- Items that fit together from a place on: each fits where it stands, and no
two words meet. -/
def Fitting : Quoting → List Item → Prop
  | _, [] => True
  | place, i :: is =>
    i.Fits place ∧ (i.isWord = false ∨ NoWordFirst is) ∧ Fitting (place.afterAll i.text) is

/-- An item that fits is cut out of its text. -/
theorem Fits.readFrom {place : Quoting} {i : Item} (h : i.Fits place) :
    readFrom place [] [] i.text = [i] := by
  cases i with
  | word w =>
      obtain ⟨rfl, hne, hw⟩ := h
      exact readFrom_wordChars hw [] hne
  | mark c =>
      obtain ⟨shown, apart⟩ := h
      exact readFrom_mark shown apart [] []
  | hidden c => exact readFrom_hidden h [] []

/-- Whatever stands behind a word that fits stands outside of quotes. -/
theorem Fits.afterAll_word {place : Quoting} {w : List Char} (h : (word w).Fits place) :
    place.afterAll (word w).text = .code := by
  obtain ⟨rfl, _, hw⟩ := h
  exact Quoting.afterAll_code fun c hc => Quoting.not_quote_of_isWord (hw c hc)

/-- A text is cut into items that fit together. -/
theorem fitting_readFrom {place : Quoting} (proper : place.Proper) (cs : List Char) :
    Fitting place (readFrom place [] [] cs) := by
  induction cs generalizing place with
  | nil => trivial
  | cons c cs ih =>
      have rest := ih (proper.after c)
      rw [readFrom_cons]
      generalize readFrom (place.after c) [] [] cs = is at rest
      unfold ofChar
      cases hhides : place.hides c with
      | true => exact ⟨hhides, .inl rfl, rest⟩
      | false =>
          cases hword : Character.isWord c with
          | false => exact ⟨⟨hhides, hword⟩, .inl rfl, rest⟩
          | true =>
              have hquote := Quoting.not_quote_of_isWord hword
              obtain rfl := proper.eq_code hhides hquote
              rw [Quoting.after_code hquote] at rest
              have alone : (word [c]).Fits .code := by
                refine ⟨rfl, by simp, ?_⟩
                rintro d hd
                rw [List.mem_singleton.mp hd]
                exact hword
              rw [if_neg (by simp), if_pos rfl]
              cases is with
              | nil => exact ⟨alone, .inr (by simp [NoWordFirst]), trivial⟩
              | cons i is =>
                  cases i with
                  | word u =>
                      obtain ⟨⟨_, hne, hu⟩, apart, more⟩ := rest
                      have whole : (word ([c] ++ u)).Fits .code :=
                        ⟨rfl, by simp, List.forall_mem_cons.mpr ⟨hword, hu⟩⟩
                      refine ⟨whole, .inr (apart.resolve_left (by simp [isWord])), ?_⟩
                      rw [Fits.afterAll_word ⟨rfl, hne, hu⟩] at more
                      rwa [whole.afterAll_word]
                  | mark d =>
                      refine ⟨alone, .inr (noWordFirst_mark d is), ?_⟩
                      rwa [alone.afterAll_word]
                  | hidden d =>
                      refine ⟨alone, .inr (by simp [NoWordFirst, isWord]), ?_⟩
                      rwa [alone.afterAll_word]

/-- The items of a text fit together, as code. -/
theorem fitting_ofText (cs : List Char) : Fitting .code (ofText cs) :=
  fitting_readFrom Quoting.proper_code cs

namespace Fitting

variable {place : Quoting} {is js : List Item}

/-- Items that fit together are cut out of their text. -/
theorem readFrom (h : Fitting place is) : readFrom place [] [] (is.flatMap text) = is := by
  induction is generalizing place with
  | nil => rfl
  | cons i is ih =>
      obtain ⟨hi, apart, rest⟩ := h
      rw [List.flatMap_cons, readFrom_append_join, hi.readFrom, ih rest]
      exact meet_eq_cons_iff.mpr apart

/-- Items that fit are read again from their text. -/
theorem ofText (h : Fitting .code is) : ofText (is.flatMap text) = is := h.readFrom

/-- Items that fit together do so in two parts. -/
theorem append (h : Fitting place (is ++ js)) :
    Fitting place is ∧ Fitting (place.afterAll (is.flatMap text)) js := by
  induction is generalizing place with
  | nil => exact ⟨trivial, h⟩
  | cons i is ih =>
      obtain ⟨hi, apart, rest⟩ := h
      obtain ⟨front, back⟩ := ih rest
      refine ⟨⟨hi, ?_, front⟩, ?_⟩
      · refine apart.imp_right fun first j hj => first j ?_
        cases is with
        | nil => cases hj
        | cons k is => exact hj
      · rw [List.flatMap_cons, Quoting.afterAll_append]
        exact back

/-- Only the last of items that fit together can join what follows. -/
theorem join_cons_cons {i k : Item} (h : Fitting place (i :: k :: is)) (js : List Item) :
    join (i :: k :: is) js = i :: join (k :: is) js := by
  rw [join_cons, meet_eq_cons_iff]
  refine h.2.1.imp_right fun first => ?_
  have noWord : k.isWord = false := first k rfl
  rw [join_cons, meet_of_not_word noWord]
  intro j hj
  cases hj
  exact noWord

/-- Items that fit together stay apart from others if no word meets a word
between them. -/
theorem join_eq_append (h : Fitting place is)
    (apart : (∀ i ∈ is.getLast?, i.isWord = false) ∨ NoWordFirst js) :
    join is js = is ++ js := by
  induction is generalizing place with
  | nil => rfl
  | cons i is ih =>
      cases is with
      | nil => exact meet_eq_cons_iff.mpr (apart.imp_left fun last => last i rfl)
      | cons k is =>
          rw [h.join_cons_cons, ih h.2.2 (by rwa [List.getLast?_cons_cons] at apart)]
          rfl

/-- What stands before a word is no word. -/
theorem getLast?_of_word {w : List Char} (h : Fitting place (is ++ word w :: js)) :
    ∀ i ∈ is.getLast?, i.isWord = false := by
  induction is generalizing place with
  | nil => simp
  | cons i is ih =>
      cases is with
      | nil =>
          intro k hk
          cases hk
          exact h.2.1.resolve_right fun first => by cases first _ rfl
      | cons k is =>
          rw [List.getLast?_cons_cons]
          exact ih h.2.2

/-- A word stands outside of quotes. -/
theorem place_word {w : List Char} (h : Fitting place (is ++ word w :: js)) :
    place.afterAll (is.flatMap text) = .code := h.append.2.1.1

end Fitting

/-- The text before a word can be followed by any other. -/
theorem ofText_before_word {cs : List Char} {is js : List Item} {w : List Char}
    (h : ofText cs = is ++ word w :: js) (ds : List Char) :
    ofText (is.flatMap text ++ ds) = is ++ ofText ds := by
  have fitting := fitting_ofText cs
  rw [h] at fitting
  rw [ofText_append_join fitting.place_word, fitting.append.1.ofText,
    fitting.append.1.join_eq_append (.inl fitting.getLast?_of_word)]

/-- The text behind a mark that is no quote is cut as it was. -/
theorem ofText_behind_mark {cs : List Char} {is js : List Item} {c : Char}
    (h : ofText cs = is ++ mark c :: js) (hc : ¬ (c = '"' ∨ c = '\'')) :
    ofText (js.flatMap text) = js := by
  have fitting := fitting_ofText cs
  rw [h] at fitting
  obtain ⟨⟨shown, _⟩, _, rest⟩ := fitting.append.2
  have proper : (Quoting.afterAll .code (is.flatMap text)).Proper :=
    Quoting.proper_code.afterAll _
  rw [proper.eq_code shown hc] at rest
  have behind : Quoting.afterAll .code (mark c).text = .code := Quoting.after_code hc
  rw [behind] at rest
  exact rest.ofText

end Item

end FormulaSheet
