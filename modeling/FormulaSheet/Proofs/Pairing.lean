import FormulaSheet.Proofs.Innermost
import FormulaSheet.Proofs.Splices

/-!
# Parentheses in pairs

The end of a call is the parenthesis before which all others are in pairs.
Which ones are in pairs is a matter of counts: as many close as open, and
nowhere more.  Places in a text are told by their bytes, and two cuts of an
outline are compared by theirs.

* `Paired`, `Matches` — pairs of parentheses, and where one of them closes;
* `Outline.cut_of_lt`, `Outline.cut_of_eq` — two cuts of an outline;
* `Outline.close?_zero_eq_some_iff` — the search for the end finds it;
* `Matches.exists_between` — what opens inside of a pair is closed.
-/

namespace FormulaSheet

theorem byteSize_cons (c : Char) (cs : List Char) :
    byteSize (c :: cs) = c.utf8Size + byteSize cs := by
  have shift : ∀ (cs : List Char) (n : Nat),
      cs.foldl (fun n c => n + c.utf8Size) n = n + byteSize cs := by
    intro cs
    induction cs with
    | nil => exact fun n => rfl
    | cons d cs ih =>
        intro n
        rw [byteSize, List.foldl_cons, List.foldl_cons, ih, ih]
        omega
  rw [byteSize, List.foldl_cons, shift, Nat.zero_add]

/-- Sizes in bytes add up. -/
theorem byteSize_append (cs ds : List Char) : byteSize (cs ++ ds) = byteSize cs + byteSize ds := by
  induction cs with
  | nil => exact (Nat.zero_add _).symm
  | cons c cs ih => rw [List.cons_append, byteSize_cons, ih, byteSize_cons, Nat.add_assoc]

/-- Parentheses outside of quotes are in pairs: there are as many of either
kind, and nowhere have more been closed than opened. -/
structure Paired (is : List Item) : Prop where
  even : is.count (.mark '(') = is.count (.mark ')')
  covered : ∀ front, front <+: is → front.count (.mark ')') ≤ front.count (.mark '(')

/-- The parenthesis at the byte `opening` is closed by that at `closing`. -/
def Matches (text : List Char) (opening closing : Nat) : Prop :=
  ∃ before inner after : List Item,
    Item.ofText text = before ++ .mark '(' :: (inner ++ .mark ')' :: after) ∧ Paired inner ∧
    opening = byteSize (before.flatMap Item.text) ∧
    closing = opening + 1 + byteSize (inner.flatMap Item.text)

/-- Only a plain mark is the item of that mark. -/
theorem Piece.item_eq_mark_iff {p : Piece} {c : Char} :
    p.item = .mark c ↔ p = .plain (.mark c) := by
  cases p <;> simp [item]

namespace Outline

/-- The parentheses of an outline are in pairs. -/
abbrev Pairs (o : Outline) : Prop := Paired (o.map Piece.item)

/-- What is in no first part is in the second. -/
theorem exists_of_append_eq {o o' front rest : Outline} {p : Piece}
    (eq : o ++ o' = front ++ p :: rest) (absent : p ∉ o) :
    ∃ mid, front = o ++ mid ∧ o' = mid ++ p :: rest := by
  rcases List.append_eq_append_iff.mp eq with ⟨mid, hfront, ho⟩ | ⟨mid, ho, hrest⟩
  · exact ⟨mid, hfront, ho⟩
  · cases mid with
    | nil => exact ⟨[], by simpa using ho.symm, by simpa using hrest.symm⟩
    | cons q mid =>
        obtain ⟨rfl, -⟩ := List.cons.inj hrest
        exact absurd (by simp [ho]) absent

/-! ## Cuts at two places -/

/-- So do those of outlines. -/
theorem byteSize_text_append (o o' : Outline) :
    byteSize (text (o ++ o')) = byteSize (text o) + byteSize (text o') := by
  rw [text_append, byteSize_append]

theorem byteSize_text_cons (p : Piece) (o : Outline) :
    byteSize (text (p :: o)) = byteSize p.text + byteSize (text o) :=
  byteSize_append p.text (text o)

section

variable {a b a' b' : Outline} {p p' : Piece}

/-- Of two cuts, one is farther to the left. -/
theorem cut_of_lt (eq : a ++ p :: b = a' ++ p' :: b')
    (lt : byteSize (text a) < byteSize (text a')) :
    ∃ m, a' = a ++ p :: m ∧ b = m ++ p' :: b' := by
  rcases List.append_eq_append_iff.mp eq with ⟨m, ha, hb⟩ | ⟨m, ha, -⟩
  · cases m with
    | nil =>
        rw [ha, List.append_nil] at lt
        exact absurd lt (Nat.lt_irrefl _)
    | cons q m =>
        obtain ⟨rfl, behind⟩ := List.cons.inj hb
        exact ⟨m, ha, behind⟩
  · rw [ha, byteSize_text_append] at lt
    omega

/-- Or they are the same. -/
theorem cut_of_eq (eq : a ++ p :: b = a' ++ p' :: b') (hp : 0 < byteSize p.text)
    (hp' : 0 < byteSize p'.text) (same : byteSize (text a) = byteSize (text a')) :
    a = a' ∧ p = p' ∧ b = b' := by
  have together : a = a' := by
    rcases List.append_eq_append_iff.mp eq with ⟨m, ha, hb⟩ | ⟨m, ha, hb⟩ <;>
      cases m with
      | nil => simpa [eq_comm] using ha
      | cons q m =>
          obtain ⟨rfl, -⟩ := List.cons.inj hb
          rw [ha, byteSize_text_append, byteSize_text_cons] at same
          omega
  subst together
  exact ⟨rfl, List.cons.inj (List.append_cancel_left eq)⟩

end

/-! ## The end of a call -/

/-- A mark is as often among the items as among the pieces. -/
theorem count_item (o : Outline) (c : Char) :
    (o.map Piece.item).count (.mark c) = o.count (.plain (.mark c)) := by
  rw [List.count, List.countP_map, List.count]
  refine List.countP_congr fun p _ => ?_
  simp [Piece.item_eq_mark_iff]

/-- Parentheses that close those of an outline and `depth` more. -/
structure PairsFrom (depth : Nat) (o : Outline) : Prop where
  even : o.count openParen + depth = o.count closeParen
  covered : ∀ front, front <+: o → front.count closeParen ≤ front.count openParen + depth

/-- With nothing left open, the parentheses pair up by themselves. -/
theorem pairsFrom_zero_iff {o : Outline} : PairsFrom 0 o ↔ Pairs o := by
  constructor
  · intro h
    refine ⟨by rw [count_item, count_item]; exact h.even, fun front hfront => ?_⟩
    obtain ⟨front', hfront', rfl⟩ := List.prefix_map_iff.mp hfront
    rw [count_item, count_item]
    exact h.covered front' hfront'
  · intro h
    have even := h.even
    rw [count_item, count_item] at even
    refine ⟨even, fun front hfront => ?_⟩
    have covered := h.covered _ (hfront.map Piece.item)
    rwa [count_item, count_item] at covered

/-- At the end nothing is left open. -/
theorem pairsFrom_nil_iff {d : Nat} : PairsFrom d [] ↔ d = 0 := by
  constructor
  · intro h
    simpa using h.even
  · rintro rfl
    refine ⟨rfl, fun front hfront => ?_⟩
    rw [List.prefix_nil.mp hfront]
    exact Nat.le_refl _

/-- The count over a first piece and what follows it. -/
theorem pairsFrom_cons_iff {d : Nat} {p : Piece} {o : Outline} :
    PairsFrom d (p :: o) ↔ (p :: o).count openParen + d = (p :: o).count closeParen ∧
      ∀ front, front <+: o →
        (p :: front).count closeParen ≤ (p :: front).count openParen + d := by
  constructor
  · exact fun h => ⟨h.even, fun front hfront =>
      h.covered (p :: front) (List.cons_prefix_cons.mpr ⟨rfl, hfront⟩)⟩
  · rintro ⟨even, covered⟩
    refine ⟨even, fun front hfront => ?_⟩
    rcases List.prefix_cons_iff.mp hfront with rfl | ⟨front', rfl, hfront'⟩
    · exact Nat.zero_le _
    · exact covered front' hfront'

/-- An opening parenthesis leaves one more to close. -/
theorem pairsFrom_open_iff {d : Nat} {o : Outline} :
    PairsFrom d (openParen :: o) ↔ PairsFrom (d + 1) o := by
  have counts : ∀ o : Outline, (openParen :: o).count openParen + d = o.count openParen + (d + 1) ∧
      (openParen :: o).count closeParen = o.count closeParen := by
    intro o
    rw [List.count_cons_self, List.count_cons_of_ne (by decide)]
    exact ⟨by omega, rfl⟩
  rw [pairsFrom_cons_iff]
  simp only [counts]
  exact ⟨fun h => ⟨h.1, h.2⟩, fun h => ⟨h.even, h.covered⟩⟩

/-- A closing one leaves one less, if there was one. -/
theorem pairsFrom_close_iff {d : Nat} {o : Outline} :
    PairsFrom d (closeParen :: o) ↔ ∃ e, d = e + 1 ∧ PairsFrom e o := by
  have counts : ∀ o : Outline, (closeParen :: o).count openParen = o.count openParen ∧
      (closeParen :: o).count closeParen = o.count closeParen + 1 := by
    intro o
    rw [List.count_cons_self, List.count_cons_of_ne (by decide)]
    exact ⟨rfl, rfl⟩
  rw [pairsFrom_cons_iff]
  simp only [counts]
  constructor
  · rintro ⟨even, covered⟩
    have here : 1 ≤ d := by simpa using covered [] List.nil_prefix
    obtain ⟨e, rfl⟩ := Nat.exists_eq_add_of_le' here
    exact ⟨e, rfl, by omega, fun front hfront => Nat.le_of_succ_le_succ (covered front hfront)⟩
  · rintro ⟨e, rfl, even, covered⟩
    exact ⟨by omega, fun front hfront => Nat.succ_le_succ (covered front hfront)⟩

/-- Other pieces leave the number as it is. -/
theorem pairsFrom_other_iff {d : Nat} {p : Piece} (h : p ≠ openParen ∧ p ≠ closeParen)
    {o : Outline} : PairsFrom d (p :: o) ↔ PairsFrom d o := by
  rw [pairsFrom_cons_iff]
  simp only [List.count_cons_of_ne h.1, List.count_cons_of_ne h.2]
  exact ⟨fun h => ⟨h.1, h.2⟩, fun h => ⟨h.even, h.covered⟩⟩

/-- The parenthesis that closes is the one before which all others are in
pairs. -/
theorem close?_eq_some_iff {d : Nat} {before o inner after : Outline} :
    close? d before o = some (inner, after) ↔
      ∃ mid, inner = before.reverse ++ mid ∧ o = mid ++ closeParen :: after ∧ PairsFrom d mid := by
  induction o generalizing d before with
  | nil => simp [close?]
  | cons p o ih =>
      -- a piece that is passed over stands in front of the others
      have pass : ∀ {e : Nat}, (∀ {mid}, PairsFrom d (p :: mid) ↔ PairsFrom e mid) →
          (p = closeParen → d ≠ 0) → close? d before (p :: o) = close? e (p :: before) o →
          (close? d before (p :: o) = some (inner, after) ↔ ∃ mid, inner = before.reverse ++ mid ∧
            p :: o = mid ++ closeParen :: after ∧ PairsFrom d mid) := by
        intro e pairs notEnd step
        rw [step, ih]
        constructor
        · rintro ⟨mid, rfl, rfl, h⟩
          exact ⟨p :: mid, by simp, rfl, pairs.mpr h⟩
        · rintro ⟨mid, rfl, eq, h⟩
          cases mid with
          | nil => exact absurd (pairsFrom_nil_iff.mp h) (notEnd (List.cons.inj eq).1)
          | cons q mid =>
              obtain ⟨rfl, rfl⟩ := List.cons.inj eq
              exact ⟨mid, by simp, rfl, pairs.mp h⟩
      by_cases opening : p = openParen
      · subst opening
        exact pass pairsFrom_open_iff (fun eq => by cases eq) (close?_open _ _ _)
      · by_cases closing : p = closeParen
        · subst closing
          cases d with
          | succ d =>
              refine pass (pairsFrom_close_iff.trans ?_) (fun _ => Nat.succ_ne_zero d)
                (close?_close _ _ _)
              simp
          | zero =>
              rw [close?_end]
              constructor
              · intro h
                cases h
                exact ⟨[], by simp, rfl, pairsFrom_nil_iff.mpr rfl⟩
              · rintro ⟨mid, rfl, eq, h⟩
                cases mid with
                | nil =>
                    cases eq
                    simp
                | cons q mid =>
                    obtain ⟨rfl, -⟩ := List.cons.inj eq
                    obtain ⟨e, he, -⟩ := pairsFrom_close_iff.mp h
                    cases he
        · exact pass (pairsFrom_other_iff ⟨opening, closing⟩) (fun eq => absurd eq closing)
            (close?_other ⟨opening, closing⟩ _ _ _)

/-- Where none closes, none of those that are open is closed. -/
theorem count_of_close?_eq_none {d : Nat} {before o : Outline} (h : close? d before o = none) :
    o.count closeParen ≤ o.count openParen + d := by
  induction o generalizing d before with
  | nil => exact Nat.zero_le _
  | cons p o ih =>
      by_cases opening : p = openParen
      · subst opening
        rw [close?_open] at h
        have := ih h
        rw [List.count_cons_self, List.count_cons_of_ne (by decide)]
        omega
      · by_cases closing : p = closeParen
        · subst closing
          cases d with
          | zero =>
              rw [close?_end] at h
              cases h
          | succ d =>
              rw [close?_close] at h
              have := ih h
              rw [List.count_cons_self, List.count_cons_of_ne (by decide)]
              omega
        · rw [close?_other ⟨opening, closing⟩] at h
          rw [List.count_cons_of_ne opening, List.count_cons_of_ne closing]
          exact ih h

/-- A parenthesis is closed where what it encloses pairs up, and nowhere else. -/
theorem close?_zero_eq_some_iff {o inner after : Outline} :
    close? 0 [] o = some (inner, after) ↔ o = inner ++ closeParen :: after ∧ Pairs inner := by
  rw [close?_eq_some_iff]
  simp only [pairsFrom_zero_iff, List.reverse_nil, List.nil_append]
  exact ⟨fun ⟨mid, eq, h⟩ => eq ▸ h, fun h => ⟨inner, rfl, h⟩⟩

/-- Among parentheses in pairs, each that opens is closed. -/
theorem Pairs.exists_close {o front back : Outline} (h : Pairs o)
    (eq : o = front ++ openParen :: back) :
    ∃ inner after, back = inner ++ closeParen :: after ∧ Pairs inner := by
  cases found : close? 0 [] back with
  | some cut => exact ⟨cut.1, cut.2, close?_zero_eq_some_iff.mp found⟩
  | none =>
      have few := count_of_close?_eq_none found
      have even := (pairsFrom_zero_iff.mpr h).even
      have covered := (pairsFrom_zero_iff.mpr h).covered front ⟨_, eq.symm⟩
      rw [eq, List.count_append, List.count_append, List.count_cons_self,
        List.count_cons_of_ne (by decide)] at even
      omega

theorem byteSize_openParen : byteSize openParen.text = 1 := by decide

theorem byteSize_closeParen : byteSize closeParen.text = 1 := by decide

end Outline

/-- A pair of parentheses in a text is one in its outline. -/
theorem matches_iff {text : List Char} {opening closing : Nat} :
    Matches text opening closing ↔ ∃ before inner after : Outline,
      Outline.ofText text =
        before ++ Outline.openParen :: (inner ++ Outline.closeParen :: after) ∧ inner.Pairs ∧
      opening = byteSize before.text ∧ closing = opening + 1 + byteSize inner.text := by
  constructor
  · rintro ⟨before, inner, after, items, pairs, hopening, hclosing⟩
    rw [← Outline.map_item_ofText] at items
    obtain ⟨before, rest, split, rfl, hrest⟩ := List.map_eq_append_iff.mp items
    obtain ⟨p, rest, rfl, hp, htail⟩ := List.map_eq_cons_iff.mp hrest
    obtain rfl := Piece.item_eq_mark_iff.mp hp
    obtain ⟨inner, rest, rfl, rfl, hafter⟩ := List.map_eq_append_iff.mp htail
    obtain ⟨p, after, rfl, hp, rfl⟩ := List.map_eq_cons_iff.mp hafter
    obtain rfl := Piece.item_eq_mark_iff.mp hp
    rw [Piece.flatMap_text_item] at hopening hclosing
    exact ⟨before, inner, after, split, pairs, hopening, hclosing⟩
  · rintro ⟨before, inner, after, split, pairs, hopening, hclosing⟩
    refine ⟨before.map Piece.item, inner.map Piece.item, after.map Piece.item, ?_, pairs, ?_, ?_⟩
    · rw [← Outline.map_item_ofText, split]
      simp only [List.map_append, List.map_cons]
      rfl
    · rw [hopening, Piece.flatMap_text_item]
    · rw [hclosing, Piece.flatMap_text_item]

/-- A parenthesis between two that match is matched. -/
theorem Matches.exists_between {text : List Char} {opening closing between : Nat}
    (h : Matches text opening closing) {front back : Outline}
    (split : Outline.ofText text = front ++ Outline.openParen :: back)
    (place : between = byteSize front.text) (behind : opening < between)
    (within : between < closing) : ∃ closing', Matches text between closing' := by
  obtain ⟨before, inner, after, whole, pairs, hopening, hclosing⟩ := matches_iff.mp h
  obtain ⟨mid, rfl, -⟩ := Outline.cut_of_lt (whole.symm.trans split)
    (by rw [← hopening, ← place]; exact behind)
  have outer : Outline.ofText text =
      (before ++ Outline.openParen :: inner) ++ Outline.closeParen :: after := by
    rw [whole]
    simp
  have sizes : closing = byteSize (Outline.text (before ++ Outline.openParen :: inner)) := by
    rw [Outline.byteSize_text_append, Outline.byteSize_text_cons, Outline.byteSize_openParen,
      hclosing, hopening, Nat.add_assoc]
  obtain ⟨mid', hinner, rfl⟩ := Outline.cut_of_lt (split.symm.trans outer)
    (by rw [← place, ← sizes]; exact within)
  rw [List.append_assoc] at hinner
  obtain ⟨inner', after', rfl, pairs'⟩ := Outline.Pairs.exists_close pairs
    (List.cons.inj (List.append_cancel_left hinner)).2
  exact ⟨_, matches_iff.mpr ⟨_, inner', after' ++ Outline.closeParen :: after, by rw [split]; simp,
    pairs', place, rfl⟩⟩

end FormulaSheet
