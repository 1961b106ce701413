import Mathlib.Data.List.Induction
import Mathlib.Tactic.IntervalCases
import FormulaSheet.Dependency
import FormulaSheet.Evaluator

/-!
# How outlines are cut

`Item.readFrom` and `Piece.readFrom` collect what they have read in reverse.
Here they are given the equations of a plain recursion, and with those the
outline of a formula is compared with the outline of its body: neither the
blanks around a formula nor an equals sign before it change what it mentions.

* `Item.ofText_mark`, `Outline.ofText_mark` — a character that is no part of a
  word and no quote is cut off by itself;
* `Item.ofText_append_blanks` — blanks at the end change nothing before them;
* `Outline.mentions_formulaBody` — a formula mentions what its body mentions;
* `Outline.references_eq` — the references are the names that are mentioned,
  without repetitions.
-/

namespace FormulaSheet

namespace Character

/-- Blanks are no part of words. -/
theorem isWord_of_isBlank {c : Char} (h : isBlank c = true) : isWord c = false := by
  unfold isBlank at h
  split at h
  · rename_i ascii
    rw [isWord_of_ascii ascii]
    simp only [Bool.or_eq_true, beq_iff_eq, Bool.and_eq_true, decide_eq_true_eq] at h
    rcases h with rfl | h
    · decide
    · have range : ∀ n, 9 ≤ n → n ≤ 13 → ∀ d : Char, d.toNat = n →
          (d.isAlphanum || d == '_') = false := by
        intro n low high d hd
        have eq : d = Char.ofNat n := by rw [← hd, Char.ofNat_toNat]
        subst eq
        interval_cases n <;> decide
      exact range c.toNat h.1 h.2 c rfl
  · rename_i beyond
    rw [isWord, if_neg beyond]
    generalize c.toNat = n at h
    simp only [Ranges.contains, blankRanges, List.any_cons, List.any_nil, Bool.or_false,
      Bool.or_eq_true, Bool.and_eq_true, decide_eq_true_eq] at h
    rcases h with h | h | h | h | h | h | h | h <;> obtain ⟨low, high⟩ := h <;>
      interval_cases n <;> decide +kernel

/-- Blanks are no quotes. -/
theorem not_quote_of_isBlank {c : Char} (h : isBlank c = true) : ¬ (c = '"' ∨ c = '\'') := by
  rintro (rfl | rfl)
  · exact absurd h (by decide)
  · exact absurd h (by decide)

/-- A text is its trimmed text between blanks. -/
theorem exists_trim (cs : List Char) : ∃ front back : List Char,
    cs = front ++ trim cs ++ back ∧ (∀ c ∈ front, isBlank c = true) ∧
      ∀ c ∈ back, isBlank c = true := by
  refine ⟨cs.takeWhile isBlank, ((trimStart cs).reverse.takeWhile isBlank).reverse, ?_, ?_, ?_⟩
  · have ends : trimStart cs =
        trim cs ++ ((trimStart cs).reverse.takeWhile isBlank).reverse := by
      rw [trim, trimEnd, dropEndWhile, ← List.reverse_append, List.takeWhile_append_dropWhile,
        List.reverse_reverse]
    rw [List.append_assoc, ← ends, trimStart, List.takeWhile_append_dropWhile]
  · intro c hc
    exact List.all_eq_true.mp List.all_takeWhile c hc
  · intro c hc
    exact List.all_eq_true.mp List.all_takeWhile c (List.mem_reverse.mp hc)

end Character

namespace Item

/-- What is read comes after what was read before. -/
theorem readFrom_eq_append (place : Quoting) (word : List Char) (out : List Item)
    (cs : List Char) : readFrom place word out cs = out.reverse ++ readFrom place word [] cs := by
  have flushed : ∀ (word : List Char) (out : List Item), flush word out = flush word [] ++ out := by
    intro word out
    unfold flush
    split <;> rfl
  induction cs generalizing place word out with
  | nil =>
      unfold readFrom
      rw [flushed word out, List.reverse_append]
  | cons c cs ih =>
      unfold readFrom
      split
      · rw [ih, ih _ _ (_ :: flush word []), flushed word out]
        simp
      · split
        · exact ih _ _ _
        · rw [ih, ih _ _ (_ :: flush word []), flushed word out]
          simp

theorem readFrom_hidden {place : Quoting} {c : Char} (hhides : place.hides c = true)
    (word cs : List Char) : readFrom place word [] (c :: cs) =
      (flush word []).reverse ++ .hidden c :: readFrom (place.after c) [] [] cs := by
  rw [readFrom, if_pos hhides, readFrom_eq_append]
  simp

theorem readFrom_mark {place : Quoting} {c : Char} (hhides : place.hides c = false)
    (hword : Character.isWord c = false) (word cs : List Char) :
    readFrom place word [] (c :: cs) =
      (flush word []).reverse ++ .mark c :: readFrom (place.after c) [] [] cs := by
  rw [readFrom, if_neg (by simp [hhides]), if_neg (by simp [hword]), readFrom_eq_append]
  simp

theorem readFrom_word {place : Quoting} {c : Char} (hhides : place.hides c = false)
    (hword : Character.isWord c = true) (word cs : List Char) :
    readFrom place word [] (c :: cs) = readFrom (place.after c) (c :: word) [] cs := by
  rw [readFrom, if_neg (by simp [hhides]), if_pos hword]

/-- A character that is no part of a word and no quote is cut off. -/
theorem ofText_mark {c : Char} (hword : Character.isWord c = false)
    (hquote : ¬ (c = '"' ∨ c = '\'')) (cs : List Char) :
    ofText (c :: cs) = .mark c :: ofText cs := by
  have hplace : Quoting.after .code c = .code := by simp only [Quoting.after, if_neg hquote]
  rw [ofText, readFrom_mark rfl hword, hplace]
  rfl

/-- An item that is blank or hidden. -/
def IsSilent : Item → Prop
  | word _ => False
  | mark c => Character.isBlank c = true
  | hidden _ => True

/-- Blanks at the end of a text are cut off one by one. -/
theorem readFrom_append_blanks (place : Quoting) (word : List Char) (cs blanks : List Char)
    (hblanks : ∀ c ∈ blanks, Character.isBlank c = true) :
    ∃ tail : List Item, (∀ i ∈ tail, i.IsSilent) ∧
      readFrom place word [] (cs ++ blanks) = readFrom place word [] cs ++ tail := by
  induction cs generalizing place word with
  | nil =>
      induction blanks generalizing place word with
      | nil => exact ⟨[], by simp, by simp⟩
      | cons b blanks ih =>
          have hb : Character.isBlank b = true := hblanks b List.mem_cons_self
          have hrest : ∀ c ∈ blanks, Character.isBlank c = true :=
            fun c hc => hblanks c (List.mem_cons_of_mem _ hc)
          obtain ⟨tail, silent, eq⟩ := ih hrest (place.after b) []
          have empty : readFrom (place.after b) [] [] [] = [] := rfl
          rw [List.nil_append, empty, List.nil_append] at eq
          by_cases hhides : place.hides b = true
          · refine ⟨.hidden b :: tail, ?_, ?_⟩
            · intro i hi
              rcases List.mem_cons.mp hi with rfl | hi
              · trivial
              · exact silent i hi
            · rw [List.nil_append, readFrom_hidden hhides, eq]
              rfl
          · refine ⟨.mark b :: tail, ?_, ?_⟩
            · intro i hi
              rcases List.mem_cons.mp hi with rfl | hi
              · exact hb
              · exact silent i hi
            · have shown : place.hides b = false := by simpa using hhides
              rw [List.nil_append, readFrom_mark shown (Character.isWord_of_isBlank hb), eq]
              rfl
  | cons c cs ih =>
      rw [List.cons_append]
      cases hhides : place.hides c with
      | true =>
          obtain ⟨tail, silent, eq⟩ := ih (place.after c) []
          refine ⟨tail, silent, ?_⟩
          rw [readFrom_hidden hhides, readFrom_hidden hhides, eq, List.append_assoc,
            List.cons_append]
      | false =>
          cases hword : Character.isWord c with
          | true =>
              rw [readFrom_word hhides hword, readFrom_word hhides hword]
              exact ih (place.after c) (c :: word)
          | false =>
              obtain ⟨tail, silent, eq⟩ := ih (place.after c) []
              refine ⟨tail, silent, ?_⟩
              rw [readFrom_mark hhides hword, readFrom_mark hhides hword, eq, List.append_assoc,
                List.cons_append]

/-- Nothing is lost when a text is cut into items. -/
theorem flatMap_text_ofText (cs : List Char) : (ofText cs).flatMap text = cs := by
  have flushed : ∀ word : List Char, ((flush word []).reverse).flatMap text = word.reverse := by
    intro word
    cases word <;> simp [flush, text]
  have go : ∀ (cs : List Char) (place : Quoting) (word : List Char),
      (readFrom place word [] cs).flatMap text = word.reverse ++ cs := by
    intro cs
    induction cs with
    | nil =>
        intro place word
        simp [readFrom, flushed]
    | cons c cs ih =>
        intro place word
        cases hhides : place.hides c with
        | true => rw [readFrom_hidden hhides]; simp [flushed, ih, text]
        | false =>
            cases hword : Character.isWord c with
            | true => rw [readFrom_word hhides hword, ih]; simp
            | false => rw [readFrom_mark hhides hword]; simp [flushed, ih, text]
  exact go cs .code []

end Item

namespace Piece

/-- What is sorted comes after what was sorted before. -/
theorem readFrom_eq_append (afterPoint : Bool) (out : List Piece) (items : List Item) :
    readFrom afterPoint out items = out.reverse ++ readFrom afterPoint [] items := by
  induction items generalizing afterPoint out with
  | nil => simp [readFrom]
  | cons i items ih =>
      cases i with
      | word w =>
          rw [readFrom, ih, readFrom, ih _ [_]]
          simp
      | mark c =>
          rw [readFrom, ih, readFrom, ih _ [_]]
          simp
      | hidden c =>
          rw [readFrom, ih, readFrom, ih _ [_]]
          simp

@[simp] theorem readFrom_word (afterPoint : Bool) (w : List Char) (items : List Item) :
    readFrom afterPoint [] (.word w :: items) =
      ofWord afterPoint w items :: readFrom false [] items := by
  rw [readFrom, readFrom_eq_append]
  rfl

@[simp] theorem readFrom_mark (afterPoint : Bool) (c : Char) (items : List Item) :
    readFrom afterPoint [] (.mark c :: items) =
      .plain (.mark c) :: readFrom (c == '.') [] items := by
  rw [readFrom, readFrom_eq_append]
  rfl

@[simp] theorem readFrom_hidden (afterPoint : Bool) (c : Char) (items : List Item) :
    readFrom afterPoint [] (.hidden c :: items) =
      .plain (.hidden c) :: readFrom false [] items := by
  rw [readFrom, readFrom_eq_append]
  rfl

/-- Silent items at the end do not make a parenthesis open. -/
theorem opens_append_silent (items tail : List Item) (silent : ∀ i ∈ tail, i.IsSilent) :
    opens (items ++ tail) = opens items := by
  induction items with
  | nil =>
      induction tail with
      | nil => rfl
      | cons i tail ih =>
          have hi : i.IsSilent := silent i List.mem_cons_self
          have hrest := ih fun i hi => silent i (List.mem_cons_of_mem _ hi)
          cases i with
          | word w => exact hi.elim
          | mark c =>
              have gap : isGap (.mark c) = true := hi
              simpa [opens, gap] using hrest
          | hidden c => rfl
  | cons i items ih =>
      rw [List.cons_append]
      by_cases gap : isGap i = true
      · simpa [opens, gap] using ih
      · simp [opens, gap]

/-- Silent items at the end change nothing before them. -/
theorem ofItems_append_silent (items tail : List Item) (silent : ∀ i ∈ tail, i.IsSilent) :
    ofItems (items ++ tail) = ofItems items ++ tail.map .plain := by
  have go : ∀ (items : List Item) (afterPoint : Bool),
      readFrom afterPoint [] (items ++ tail) =
        readFrom afterPoint [] items ++ tail.map .plain := by
    intro items
    induction items with
    | nil =>
        induction tail with
        | nil => exact fun _ => rfl
        | cons i tail ih =>
            intro afterPoint
            have hi : i.IsSilent := silent i List.mem_cons_self
            have hrest := ih fun i hi => silent i (List.mem_cons_of_mem _ hi)
            simp only [List.nil_append] at hrest
            cases i with
            | word w => exact hi.elim
            | mark c => simpa [readFrom] using hrest (c == '.')
            | hidden c => simpa [readFrom] using hrest false
    | cons i items ih =>
        intro afterPoint
        rw [List.cons_append]
        cases i with
        | word w =>
            rw [readFrom_word, readFrom_word, ih, List.cons_append, ofWord, ofWord,
              opens_append_silent items tail silent]
        | mark c => rw [readFrom_mark, readFrom_mark, ih, List.cons_append]
        | hidden c => rw [readFrom_hidden, readFrom_hidden, ih, List.cons_append]
  exact go items false

end Piece

namespace Outline

/-- A character that is no part of a word, no quote and no point is a piece. -/
theorem ofText_mark {c : Char} (hword : Character.isWord c = false)
    (hquote : ¬ (c = '"' ∨ c = '\'')) (hpoint : c ≠ '.') (cs : List Char) :
    ofText (c :: cs) = .plain (.mark c) :: ofText cs := by
  have notPoint : (c == '.') = false := by simpa using hpoint
  rw [ofText, Item.ofText_mark hword hquote, Piece.ofItems, Piece.readFrom_mark, notPoint]
  rfl

/-- Blanks at the front of a text change nothing after them. -/
theorem ofText_blanks_append (blanks cs : List Char)
    (hblanks : ∀ c ∈ blanks, Character.isBlank c = true) :
    ofText (blanks ++ cs) = blanks.map (fun c => .plain (.mark c)) ++ ofText cs := by
  induction blanks with
  | nil => rfl
  | cons b blanks ih =>
      have hb : Character.isBlank b = true := hblanks b List.mem_cons_self
      have hpoint : b ≠ '.' := by
        intro eq
        subst eq
        exact absurd hb (by decide)
      rw [List.cons_append, ofText_mark (Character.isWord_of_isBlank hb)
        (Character.not_quote_of_isBlank hb) hpoint, ih fun c hc => hblanks c (.tail _ hc)]
      rfl

/-- Blanks at the end of a text change nothing before them. -/
theorem ofText_append_blanks (cs blanks : List Char)
    (hblanks : ∀ c ∈ blanks, Character.isBlank c = true) :
    ∃ tail : List Item, ofText (cs ++ blanks) = ofText cs ++ tail.map .plain := by
  obtain ⟨tail, silent, eq⟩ := Item.readFrom_append_blanks .code [] cs blanks hblanks
  refine ⟨tail, ?_⟩
  rw [ofText, Item.ofText, eq, Piece.ofItems_append_silent _ _ silent]
  rfl

theorem mentions_append (o p : Outline) : mentions (o ++ p) = mentions o ++ mentions p :=
  List.filterMap_append

/-- Plain pieces mention nothing. -/
theorem mentions_plain (items : List Item) : mentions (items.map .plain) = [] := by
  induction items with
  | nil => rfl
  | cons i items ih => exact ih

/-- Blanks around a text are no part of what it mentions. -/
theorem mentions_trim (cs : List Char) :
    (ofText (Character.trim cs)).mentions = (ofText cs).mentions := by
  obtain ⟨front, back, eq, hfront, hback⟩ := Character.exists_trim cs
  obtain ⟨tail, htail⟩ := ofText_append_blanks (front ++ Character.trim cs) back hback
  have marks : front.map (fun c => Piece.plain (.mark c)) = (front.map Item.mark).map .plain := by
    rw [List.map_map]
    rfl
  have whole : (ofText cs).mentions =
      (ofText (front ++ Character.trim cs ++ back)).mentions := by rw [← eq]
  rw [whole, htail, ofText_blanks_append _ _ hfront, marks, mentions_append, mentions_append,
    mentions_plain, mentions_plain, List.nil_append, List.append_nil]

/-- A formula mentions what its body mentions. -/
theorem mentions_formulaBody (cs : List Char) :
    (ofText (formulaBody cs)).mentions = (ofText cs).mentions := by
  unfold formulaBody
  split
  · rename_i rest eq
    have sign : (ofText ('=' :: rest)).mentions = (ofText rest).mentions := by
      rw [ofText_mark (by decide) (by decide) (by decide)]
      rfl
    rw [mentions_trim, ← sign, ← eq, mentions_trim]
  · rw [mentions_trim, mentions_trim]

theorem eraseDups_concat (names : List String) (m : String) :
    (names ++ [m]).eraseDups =
      if m ∈ names then names.eraseDups else names.eraseDups ++ [m] := by
  rw [List.eraseDups_append]
  by_cases known : m ∈ names <;> simp [List.removeAll, known, List.eraseDups_cons]

/-- Each name is listed once, where it is first referred to. -/
theorem references_eq (o : Outline) : o.references = o.mentions.eraseDups := by
  have fold : ∀ names : List String, names.foldl addName [] = names.eraseDups.reverse := by
    intro names
    induction names using List.reverseRecOn with
    | nil => rfl
    | append_singleton names m ih =>
        rw [List.foldl_append, ih, eraseDups_concat]
        by_cases known : m ∈ names <;> simp [addName, known]
  rw [references, fold, List.reverse_reverse]

/-- The names that are referred to are those that are mentioned. -/
theorem mem_references (o : Outline) (name : String) :
    name ∈ o.references ↔ name ∈ o.mentions := by
  rw [references_eq, List.mem_eraseDups]

/-- What is found first among the names that are referred to is found first
among those that are mentioned. -/
theorem findSome?_references {α : Type} (f : String → Option α) (o : Outline) :
    o.references.findSome? f = o.mentions.findSome? f := by
  rw [references_eq]
  induction o.mentions using List.reverseRecOn with
  | nil => rfl
  | append_singleton names m ih =>
      rw [eraseDups_concat, List.findSome?_append]
      split
      · -- a name that was met before has been tried before
        rename_i known
        rw [ih]
        cases found : names.findSome? f with
        | some a => rfl
        | none => rw [List.findSome?_singleton, List.findSome?_eq_none_iff.mp found m known]; rfl
      · rw [List.findSome?_append, ih]

/-- The text with the references that have values replaced by their
literals. -/
def textWith (value? : String → Option Value) : Outline → List Char
  | [] => []
  | .reference w :: ps =>
    ((value? (String.ofList w)).map Value.splice).getD w ++ textWith value? ps
  | .callee w :: ps => w ++ textWith value? ps
  | .plain i :: ps => i.text ++ textWith value? ps

/-- Only the values of names that are mentioned matter. -/
theorem textWith_congr {value? value?' : String → Option Value} {o : Outline}
    (h : ∀ name ∈ o.mentions, value? name = value?' name) :
    o.textWith value? = o.textWith value?' := by
  induction o with
  | nil => rfl
  | cons p ps ih =>
      cases p with
      | reference w =>
          have first : value? (String.ofList w) = value?' (String.ofList w) :=
            h _ List.mem_cons_self
          have rest := ih fun name hname => h name (List.mem_cons_of_mem _ hname)
          rw [textWith, textWith, first, rest]
      | callee w => rw [textWith, textWith, ih h]
      | plain i => rw [textWith, textWith, ih h]

/-- Substituting from a source that only answers puts its answers in place. -/
theorem fst_substitute_pure (source : String → Option Value) (o : Outline) :
    (Id.run (o.substitute fun name => pure (source name))).1 = o.textWith source := by
  have go : ∀ (o : Outline) (out : List Char) (names : List String),
      (Id.run (substituteFrom (fun name => pure (source name)) out names o)).1 =
        out.reverse ++ o.textWith source := by
    intro o
    induction o with
    | nil => intro out names; simp [substituteFrom, textWith]
    | cons p ps ih =>
        intro out names
        cases p with
        | reference w =>
            cases hv : source (String.ofList w) with
            | none => simp [substituteFrom, textWith, hv, ih]
            | some v => simp [substituteFrom, textWith, hv, ih]
        | callee w => simp [substituteFrom, textWith, ih]
        | plain i => simp [substituteFrom, textWith, ih]
  exact go o [] []

/-- Substituting from a table looks up every reference there. -/
theorem fst_substituteTable (bindings : Table Value) (o : Outline) :
    (o.substituteTable bindings).1 = o.textWith bindings.get? :=
  fst_substitute_pure bindings.get? o

end Outline

/-- A formula depends on the ids of the names that its body mentions. -/
theorem mem_dependenciesOf {names : Table String} {formula id : String} :
    id ∈ dependenciesOf names formula ↔
      ∃ name ∈ (Outline.ofText (formulaBody formula.toList)).mentions,
        names.get? name = some id := by
  rw [dependenciesOf, Outline.dependencies, List.mem_filterMap]
  constructor
  · intro ⟨name, hname, hid⟩
    refine ⟨name, ?_, hid⟩
    rw [Outline.mentions_formulaBody]
    exact (Outline.mem_references _ _).mp hname
  · intro ⟨name, hname, hid⟩
    refine ⟨name, (Outline.mem_references _ _).mpr ?_, hid⟩
    rw [← Outline.mentions_formulaBody]
    exact hname

end FormulaSheet
