import FormulaSheet.Proofs.Exhaustion
import FormulaSheet.Proofs.Pairing

/-!
# The call that is resolved next

The order in which calls are resolved is the order in which they draw random
numbers.  What comes next is looked for by comparing each call with the one
behind it only, and this finds the first call that contains no other.  Here a
call is told by the bytes that it stands at.

* `Call.In`, `Followed` — where a text has calls, and how they are met;
* `Outline.innermostFrom_cases` — what the search finds, one nesting at a time;
* `Outline.innermost_selects` — what it finds in a text, in bytes.
-/

namespace FormulaSheet

/-- A call in a text: its name, the byte at which the name starts, and that of
the opening parenthesis. -/
structure Call where
  name : List Char
  start : Nat
  opening : Nat

/-- A call is an identifier outside of quotes that is not reserved and follows
no point, with a parenthesis behind it, after blanks or at once. -/
def Call.In (c : Call) (text : List Char) : Prop :=
  ∃ before gap after : List Item,
    Item.ofText text = before ++ .word c.name :: (gap ++ .mark '(' :: after) ∧
    before.getLast? ≠ some (.mark '.') ∧
    isIdentifier c.name = true ∧ isReserved (String.ofList c.name) = false ∧
    (∀ i ∈ gap, Piece.isGap i = true) ∧
    c.start = byteSize (before.flatMap Item.text) ∧
    c.opening = c.start + byteSize c.name + byteSize (gap.flatMap Item.text)

/-- The calls that are met from left to right, while each contains the next. -/
inductive Followed (text : List Char) : Call → Prop where
  | first {c : Call} (here : c.In text) (leftmost : ∀ d : Call, d.In text → c.start ≤ d.start) :
      Followed text c
  | next {b c : Call} {closing : Nat} (before : Followed text b)
      (closes : Matches text b.opening closing) (here : c.In text) (behind : b.start < c.start)
      (adjacent : ∀ d : Call, d.In text → b.start < d.start → c.start ≤ d.start)
      (contained : c.opening < closing) : Followed text c

namespace Piece

/-- A piece is what its item is where it stands. -/
theorem eq_ofItem {afterPoint : Bool} {items : List Item} {front back : Outline} {p : Piece}
    (h : readFrom afterPoint [] items = front ++ p :: back) :
    p = ofItem (Item.pointAfter afterPoint (front.map item)) p.item (back.map item) := by
  induction front generalizing afterPoint items with
  | nil =>
      cases items with
      | nil => cases h
      | cons i items =>
          rw [readFrom_cons] at h
          obtain ⟨rfl, rfl⟩ := List.cons.inj h
          rw [item_ofItem, map_item_readFrom]
          rfl
  | cons q front ih =>
      cases items with
      | nil => cases h
      | cons i items =>
          rw [readFrom_cons] at h
          obtain ⟨rfl, rest⟩ := List.cons.inj h
          rw [List.map_cons, item_ofItem]
          exact ih rest

/-- A word is called where it is an identifier that is not reserved, follows no
point, and a parenthesis opens behind it. -/
theorem ofWord_eq_callee_iff {afterPoint : Bool} {w : List Char} {next : List Item} :
    ofWord afterPoint w next = .callee w ↔ afterPoint = false ∧ isIdentifier w = true ∧
      isReserved (String.ofList w) = false ∧ opens next = true := by
  unfold ofWord
  cases afterPoint <;> cases isIdentifier w <;> cases isReserved (String.ofList w) <;>
    cases opens next <;> simp

/-- A parenthesis opens behind blanks. -/
theorem opens_iff {items : List Item} : opens items = true ↔
    ∃ gap after, items = gap ++ .mark '(' :: after ∧ ∀ i ∈ gap, isGap i = true := by
  constructor
  · intro h
    obtain ⟨i, after, hdrop⟩ : ∃ i after, items.dropWhile isGap = i :: after := by
      cases eq : items.dropWhile isGap with
      | nil => simp [opens, eq] at h
      | cons i after => exact ⟨i, after, rfl⟩
    obtain rfl : i = .mark '(' := by simpa [opens, hdrop] using h
    refine ⟨items.takeWhile isGap, after, ?_, ?_⟩
    · rw [← hdrop, List.takeWhile_append_dropWhile]
    · exact fun i hi => List.mem_takeWhile_imp hi
  · rintro ⟨gap, after, rfl, blank⟩
    rw [opens, List.dropWhile_append_of_pos (fun i hi => blank i hi),
      List.dropWhile_cons_of_neg (by decide)]
    rfl

end Piece

/-- Where items end in a point. -/
theorem Item.pointAfter_eq_false_iff (is : List Item) :
    Item.pointAfter false is = false ↔ is.getLast? ≠ some (.mark '.') := by
  have last : ∀ (afterPoint : Bool) (i : Item) (is : List Item),
      pointAfter afterPoint (i :: is) = ((i :: is).getLast?.any isPoint) := by
    intro afterPoint i is
    induction is generalizing afterPoint i with
    | nil => rfl
    | cons j is ih => rw [pointAfter, ih, List.getLast?_cons_cons]
  have point : ∀ i : Item, i.isPoint = true ↔ i = .mark '.' := by
    intro i
    cases i <;> simp [isPoint]
  cases is with
  | nil => simp [pointAfter]
  | cons i is =>
      rw [last]
      cases (i :: is).getLast? with
      | none => simp
      | some j => simp [← Bool.not_eq_true, point]

namespace Outline

/-- Blanks between a name and its parenthesis. -/
def Gap (o : Outline) : Prop := ∀ p ∈ o, Piece.isGap p.item = true

/-- Every name that is called has its parenthesis. -/
def Announced (o : Outline) : Prop :=
  ∀ {before rest : Outline} {w : List Char}, o = before ++ .callee w :: rest →
    ∃ gap after, rest = gap ++ openParen :: after ∧ Gap gap

/-- Blanks are neither parentheses nor calls. -/
theorem Gap.not_mem {gap : Outline} (h : Gap gap) :
    openParen ∉ gap ∧ closeParen ∉ gap ∧ ∀ w, .callee w ∉ gap :=
  ⟨fun hp => absurd (h _ hp) (by decide), fun hp => absurd (h _ hp) (by decide),
    fun w hp => by cases h _ hp⟩

/-- Only one parenthesis is the first behind blanks. -/
theorem Gap.unique {gap gap' after after' : Outline} (h : Gap gap) (h' : Gap gap')
    (eq : gap ++ openParen :: after = gap' ++ openParen :: after') :
    gap = gap' ∧ after = after' := by
  rcases List.append_eq_append_iff.mp eq with ⟨m, hgap, hafter⟩ | ⟨m, hgap, hafter⟩ <;>
    cases m with
    | nil =>
        rw [List.append_nil] at hgap
        exact ⟨by rw [hgap], by simpa [eq_comm] using hafter⟩
    | cons p m =>
        obtain ⟨rfl, -⟩ := List.cons.inj hafter
        first
        | exact absurd (by simp [hgap]) h.not_mem.1
        | exact absurd (by simp [hgap]) h'.not_mem.1

/-- What is inside of parentheses has the parentheses of its calls. -/
theorem Announced.inside {o before inner after : Outline} (h : Announced o)
    (eq : o = before ++ (inner ++ closeParen :: after)) : Announced inner := by
  intro front rest w split
  have whole : o = (before ++ front) ++ .callee w :: (rest ++ closeParen :: after) := by
    rw [eq, split]
    simp
  obtain ⟨gap, behind, hrest, blank⟩ := h whole
  rcases List.append_eq_append_iff.mp hrest with ⟨m, hgap, hafter⟩ | ⟨m, hrest, hafter⟩
  · cases m with
    | nil => cases hafter
    | cons p m =>
        obtain ⟨rfl, -⟩ := List.cons.inj hafter
        exact absurd (by simp [hgap]) blank.not_mem.2.1
  · cases m with
    | nil => cases hafter
    | cons p m =>
        obtain ⟨rfl, -⟩ := List.cons.inj hafter
        exact ⟨gap, m, hrest, blank⟩

/-- Every name that a text calls has its parenthesis. -/
theorem announced_ofText (text : List Char) : Announced (ofText text) := by
  intro before rest w split
  have kind := Piece.eq_ofItem split
  obtain ⟨gap, after, hrest, blank⟩ :=
    Piece.opens_iff.mp (Piece.ofWord_eq_callee_iff.mp kind.symm).2.2.2
  obtain ⟨gap, behind, rfl, rfl, hbehind⟩ := List.map_eq_append_iff.mp hrest
  obtain ⟨p, after, rfl, hp, rfl⟩ := List.map_eq_cons_iff.mp hbehind
  refine ⟨gap, after, ?_, fun p hp => blank _ (List.mem_map_of_mem hp)⟩
  rw [Piece.item_eq_mark_iff.mp hp]
  rfl

/-! ## The search -/

theorem firstCall?_cases (before o : Outline) :
    (firstCall? before o = none ∧ ∀ w, .callee w ∉ o) ∨
      ∃ front w rest, o = front ++ .callee w :: rest ∧ (∀ w, .callee w ∉ front) ∧
        firstCall? before o = some (front.reverse ++ before, w, rest) := by
  induction o generalizing before with
  | nil => exact .inl ⟨rfl, fun w h => by cases h⟩
  | cons p o ih =>
      have pass : (∀ w, p ≠ .callee w) → firstCall? before (p :: o) = firstCall? (p :: before) o →
          (firstCall? before (p :: o) = none ∧ ∀ w, .callee w ∉ p :: o) ∨
            ∃ front w rest, p :: o = front ++ .callee w :: rest ∧ (∀ w, .callee w ∉ front) ∧
              firstCall? before (p :: o) = some (front.reverse ++ before, w, rest) := by
        intro other step
        rw [step]
        rcases ih (p :: before) with ⟨none, absent⟩ | ⟨front, w, rest, rfl, absent, found⟩
        · exact .inl ⟨none, fun w => List.not_mem_cons_of_ne_of_not_mem (other w).symm (absent w)⟩
        · refine .inr ⟨p :: front, w, rest, rfl, fun w =>
            List.not_mem_cons_of_ne_of_not_mem (other w).symm (absent w), ?_⟩
          rw [found, List.reverse_cons, List.append_assoc]
          rfl
      cases p with
      | callee w => exact .inr ⟨[], w, o, rfl, (fun _ hw => by cases hw), rfl⟩
      | reference w => exact pass (fun _ eq => by cases eq) rfl
      | plain i => exact pass (fun _ eq => by cases eq) rfl

/-- What stands first among calls. -/
theorem Announced.openCall?_cases {o : Outline} (h : Announced o) :
    (openCall? o = none ∧ ∀ w, .callee w ∉ o) ∨
      ∃ before w gap rest, o = before ++ .callee w :: (gap ++ openParen :: rest) ∧
        (∀ w, .callee w ∉ before) ∧ Gap gap ∧ openCall? o = some (before, w, gap, rest) := by
  rcases firstCall?_cases [] o with ⟨none, absent⟩ | ⟨front, w, rest, eq, absent, found⟩
  · exact .inl ⟨by simp only [openCall?, none], absent⟩
  · obtain ⟨gap, after, rfl, blank⟩ := h eq
    refine .inr ⟨front, w, gap, after, eq, absent, blank, ?_⟩
    have notParen : ∀ p ∈ gap, (p != openParen) = true := by
      rintro p hp
      exact bne_iff_ne.mpr fun eq => blank.not_mem.1 (eq ▸ hp)
    have hdrop : (gap ++ openParen :: after).dropWhile (· != openParen) = openParen :: after := by
      rw [List.dropWhile_append_of_pos notParen, List.dropWhile_cons_of_neg (by decide)]
    have htake : (gap ++ openParen :: after).takeWhile (· != openParen) = gap := by
      rw [List.takeWhile_append_of_pos notParen, List.takeWhile_cons_of_neg (by decide),
        List.append_nil]
    rw [openCall?_of_firstCall? found hdrop, htake]
    simp

end Outline

/-- The site is at a call that contains no other, and that is contained in each
call before it. -/
structure CallSite.Selected (site : CallSite) (o : Outline) : Prop where
  whole : o = site.before ++ .callee site.name :: (site.gap ++ Outline.openParen ::
    (site.inner ++ Outline.closeParen :: site.after))
  gap : Outline.Gap site.gap
  pairs : Outline.Pairs site.inner
  innermost : ∀ w, .callee w ∉ site.inner
  contained : ∀ {front rest : Outline} {w : List Char}, site.before = front ++ .callee w :: rest →
    ∃ gap mid inner after, rest = gap ++ Outline.openParen :: mid ∧ Outline.Gap gap ∧
      site.after = inner ++ Outline.closeParen :: after ∧
      Outline.Pairs (mid ++ .callee site.name :: (site.gap ++ Outline.openParen ::
        (site.inner ++ Outline.closeParen :: inner)))

/-- What is selected inside of the first call is selected. -/
theorem CallSite.Selected.within {outer deeper : CallSite} {o : Outline}
    (sel : deeper.Selected outer.inner)
    (whole : o = outer.before ++ .callee outer.name :: (outer.gap ++ Outline.openParen ::
      (outer.inner ++ Outline.closeParen :: outer.after)))
    (first : ∀ w, .callee w ∉ outer.before) (gap : Outline.Gap outer.gap)
    (pairs : Outline.Pairs outer.inner) : (outer.within deeper).Selected o where
  whole := by
    rw [whole, sel.whole]
    simp [CallSite.within, Outline.openParen, Outline.closeParen]
  gap := sel.gap
  pairs := sel.pairs
  innermost := sel.innermost
  contained := by
    intro front rest w split
    have before : outer.before ++ .callee outer.name :: (outer.gap ++ Outline.openParen ::
        deeper.before) = front ++ .callee w :: rest := by
      rw [← split]
      simp [CallSite.within, Outline.openParen]
    obtain ⟨mid, -, hmid⟩ := Outline.exists_of_append_eq before (first w)
    cases mid with
    | nil =>
        obtain ⟨-, rfl⟩ := List.cons.inj hmid
        exact ⟨outer.gap, deeper.before, deeper.after, outer.after, rfl, gap, rfl,
          sel.whole ▸ pairs⟩
    | cons p mid =>
        obtain ⟨mid, -, hmid⟩ :=
          Outline.exists_of_append_eq (List.cons.inj hmid).2 (gap.not_mem.2.2 w)
        cases mid with
        | nil => cases hmid
        | cons p mid =>
            obtain ⟨gap', mid, inner, after, hrest, blank, hafter, pairs'⟩ :=
              sel.contained (List.cons.inj hmid).2
            refine ⟨gap', mid, inner, after ++ Outline.closeParen :: outer.after, hrest, blank, ?_,
              pairs'⟩
            rw [CallSite.within, hafter]
            simp [Outline.closeParen]

namespace Outline

/-- The search stops at an outline without calls, at a call that contains no
other, or at a first call that does not close. -/
theorem Announced.innermostFrom_cases {room : Nat} {o : Outline} (h : Announced o)
    (enough : o.length < room) :
    (innermostFrom room o = .ok none ∧ ∀ w, .callee w ∉ o) ∨
      (∃ site, innermostFrom room o = .ok (some site) ∧ site.Selected o) ∨
      ∃ before w gap rest, o = before ++ .callee w :: (gap ++ openParen :: rest) ∧
        (∀ w, .callee w ∉ before) ∧ Gap gap ∧
        (∀ inner after, rest = inner ++ closeParen :: after → ¬ Pairs inner) ∧
        innermostFrom room o = .error (.parse
          (byteSize (text before) + byteSize w + byteSize (text gap))
          (.unclosedCall (String.ofList w))) := by
  induction room generalizing o with
  | zero => cases enough
  | succ room ih =>
      rw [innermostFrom]
      rcases h.openCall?_cases with
        ⟨none, absent⟩ | ⟨before, w, gap, rest, eq, absent, blank, found⟩
      · rw [none]
        exact .inl ⟨rfl, absent⟩
      · rw [found]
        dsimp only
        cases closed : close? 0 [] rest with
        | none =>
            refine .inr (.inr ⟨before, w, gap, rest, eq, absent, blank, ?_, rfl⟩)
            intro inner after split pairs
            rw [close?_zero_eq_some_iff.mpr ⟨split, pairs⟩] at closed
            cases closed
        | some cut =>
            obtain ⟨inner, after⟩ := cut
            obtain ⟨rfl, pairs⟩ := close?_zero_eq_some_iff.mp closed
            have whole : o = (before ++ .callee w :: (gap ++ [openParen])) ++
                (inner ++ closeParen :: after) := by
              rw [eq]
              simp
            have shorter : inner.length < room := by
              rw [whole] at enough
              simp only [List.length_append, List.length_cons] at enough
              omega
            refine .inr (.inl ?_)
            dsimp only
            rcases ih (h.inside whole) shorter with
              ⟨none, absent'⟩ | ⟨deeper, found', sel⟩ |
                ⟨b', w', gap', rest', eq', -, -, unpaired, -⟩
            · rw [none]
              refine ⟨_, rfl, ⟨eq, blank, pairs, absent', ?_⟩⟩
              intro front rest' w' split
              exact absurd (show Piece.callee w' ∈ before by simp [show before = _ from split])
                (absent w')
            · rw [found']
              exact ⟨_, rfl, sel.within eq absent blank pairs⟩
            · -- a call inside of parentheses that are in pairs does close
              have split : inner = (b' ++ .callee w' :: gap') ++ openParen :: rest' := by
                rw [eq']
                simp
              obtain ⟨inner', after', hrest, pairs'⟩ := pairs.exists_close split
              exact absurd pairs' (unpaired _ _ hrest)

end Outline

/-! ## In bytes -/

namespace Call

variable {c d : Call} {text : List Char}

/-- A call of a text is one of its outline. -/
theorem in_iff : c.In text ↔ ∃ before gap after : Outline,
    Outline.ofText text = before ++ .callee c.name :: (gap ++ Outline.openParen :: after) ∧
    gap.Gap ∧ c.start = byteSize before.text ∧
    c.opening = c.start + byteSize c.name + byteSize gap.text := by
  constructor
  · rintro ⟨before, gap, after, items, point, identifier, notReserved, blank, hstart, hopening⟩
    rw [← Outline.map_item_ofText] at items
    obtain ⟨before, rest, split, rfl, hrest⟩ := List.map_eq_append_iff.mp items
    obtain ⟨p, rest, rfl, hp, htail⟩ := List.map_eq_cons_iff.mp hrest
    have called : p = .callee c.name := by
      rw [Piece.eq_ofItem split, hp]
      refine Piece.ofWord_eq_callee_iff.mpr
        ⟨(Item.pointAfter_eq_false_iff _).mpr point, identifier, notReserved, ?_⟩
      exact Piece.opens_iff.mpr ⟨gap, after, htail, blank⟩
    subst called
    obtain ⟨gap, rest, rfl, rfl, hafter⟩ := List.map_eq_append_iff.mp htail
    obtain ⟨p, after, rfl, hp, rfl⟩ := List.map_eq_cons_iff.mp hafter
    obtain rfl := Piece.item_eq_mark_iff.mp hp
    rw [Piece.flatMap_text_item] at hstart hopening
    exact ⟨before, gap, after, split, fun p hp => blank _ (List.mem_map_of_mem hp), hstart,
      hopening⟩
  · rintro ⟨before, gap, after, split, blank, hstart, hopening⟩
    have kind := Piece.ofWord_eq_callee_iff.mp (Piece.eq_ofItem split).symm
    refine ⟨before.map Piece.item, gap.map Piece.item, after.map Piece.item, ?_,
      (Item.pointAfter_eq_false_iff _).mp kind.1, kind.2.1, kind.2.2.1, ?_, ?_, ?_⟩
    · rw [← Outline.map_item_ofText, split]
      simp only [List.map_append, List.map_cons]
      rfl
    · intro i hi
      obtain ⟨p, hp, rfl⟩ := List.mem_map.mp hi
      exact blank p hp
    · rw [hstart, Piece.flatMap_text_item]
    · rw [hopening, Piece.flatMap_text_item]

end Call

namespace Outline

theorem byteSize_callee (w : List Char) : byteSize (Piece.callee w).text = byteSize w := rfl

/-- The place of a call's parenthesis. -/
theorem byteSize_before_paren (before gap : Outline) (w : List Char) :
    byteSize (text (before ++ .callee w :: gap)) =
      byteSize before.text + byteSize w + byteSize gap.text := by
  rw [byteSize_text_append, byteSize_text_cons, Nat.add_assoc]
  rfl

end Outline

namespace Call

variable {c d : Call} {text : List Char}

theorem In.byteSize_name_pos (h : c.In text) : 0 < byteSize c.name := by
  obtain ⟨-, -, -, -, -, identifier, -⟩ := h
  cases hname : c.name with
  | nil =>
      rw [hname] at identifier
      cases identifier
  | cons a cs =>
      rw [byteSize_cons]
      have := a.utf8Size_pos
      omega

theorem In.start_le (h : c.In text) : c.start ≤ c.opening := by
  obtain ⟨_, _, _, _, _, _, _, _, _, hopening⟩ := h
  omega

/-- A parenthesis stands where that of a call does. -/
theorem In.exists_paren (h : c.In text) : ∃ front back : Outline,
    Outline.ofText text = front ++ Outline.openParen :: back ∧
      c.opening = byteSize front.text := by
  obtain ⟨before, gap, after, split, -, hstart, hopening⟩ := in_iff.mp h
  refine ⟨before ++ .callee c.name :: gap, after, by rw [split]; simp, ?_⟩
  rw [Outline.byteSize_before_paren, hopening, hstart]

/-- Two calls do not start at one place. -/
theorem In.eq_of_start (hc : c.In text) (hd : d.In text) (same : c.start = d.start) : c = d := by
  obtain ⟨before, gap, after, split, blank, hstart, hopening⟩ := in_iff.mp hc
  obtain ⟨before', gap', after', split', blank', hstart', hopening'⟩ := in_iff.mp hd
  obtain ⟨-, name, rest⟩ := Outline.cut_of_eq (split.symm.trans split') hc.byteSize_name_pos
    hd.byteSize_name_pos (by rw [← hstart, ← hstart', same])
  obtain ⟨rfl, -⟩ := blank.unique blank' rest
  cases c
  cases d
  cases name
  simp_all

/-- Between a name and its parenthesis no call starts. -/
theorem In.opening_lt (hc : c.In text) (hd : d.In text) (lt : c.start < d.start) :
    c.opening < d.start := by
  obtain ⟨before, gap, after, split, blank, hstart, hopening⟩ := in_iff.mp hc
  obtain ⟨before', gap', after', split', -, hstart', -⟩ := in_iff.mp hd
  obtain ⟨mid, hbefore', hrest⟩ :=
    Outline.cut_of_lt (split.symm.trans split') (by rw [← hstart, ← hstart']; exact lt)
  obtain ⟨mid, rfl, hafter⟩ := Outline.exists_of_append_eq hrest (blank.not_mem.2.2 d.name)
  cases mid with
  | nil => cases hafter
  | cons p mid =>
      obtain ⟨rfl, -⟩ := List.cons.inj hafter
      have whole : before' = (before ++ .callee c.name :: gap) ++ Outline.openParen :: mid := by
        rw [hbefore']
        simp
      rw [hstart', whole, Outline.byteSize_text_append, Outline.byteSize_text_cons,
        Outline.byteSize_before_paren, Outline.byteSize_openParen, hopening, hstart]
      omega

end Call

theorem Followed.here {text : List Char} {c : Call} (h : Followed text c) : c.In text := by
  cases h with
  | first here _ => exact here
  | next _ _ here _ _ _ => exact here

/-- What is followed is the first call of the text, or it is closed inside of
another. -/
theorem Followed.leftmost_or_matched {text : List Char} {c : Call} (h : Followed text c) :
    (∀ d : Call, d.In text → c.start ≤ d.start) ∨ ∃ closing, Matches text c.opening closing := by
  cases h with
  | first _ leftmost => exact .inl leftmost
  | next before closes here behind _ contained =>
      obtain ⟨front, back, split, place⟩ := here.exists_paren
      refine .inr (closes.exists_between split place ?_ contained)
      exact Nat.lt_of_lt_of_le (before.here.opening_lt here behind) here.start_le

namespace CallSite

/-- The call at a site. -/
def call (site : CallSite) : Call := ⟨site.name, site.start, site.opening⟩

variable {site : CallSite} {text : List Char}

theorem Selected.call_in (h : site.Selected (Outline.ofText text)) : site.call.In text :=
  Call.in_iff.mpr ⟨_, _, _, h.whole, h.gap, rfl, rfl⟩

theorem opening_eq (site : CallSite) :
    site.opening = byteSize (Outline.text (site.before ++ .callee site.name :: site.gap)) :=
  (Outline.byteSize_before_paren _ _ _).symm

theorem Selected.matches (h : site.Selected (Outline.ofText text)) :
    Matches text site.opening site.closing :=
  matches_iff.mpr
    ⟨_, site.inner, site.after, h.whole.trans (by simp), h.pairs, site.opening_eq, rfl⟩

/-- No call starts inside of the one that is selected. -/
theorem Selected.not_between (h : site.Selected (Outline.ofText text)) {c : Call} (hc : c.In text) :
    ¬ (site.opening < c.start ∧ c.start < site.closing) := by
  rintro ⟨behind, inside⟩
  obtain ⟨before, gap, after, split, -, hstart, -⟩ := Call.in_iff.mp hc
  have opened : Outline.ofText text = (site.before ++ .callee site.name :: site.gap) ++
      Outline.openParen :: (site.inner ++ Outline.closeParen :: site.after) := by
    rw [h.whole]
    simp
  have closed : Outline.ofText text = ((site.before ++ .callee site.name :: site.gap) ++
      Outline.openParen :: site.inner) ++ Outline.closeParen :: site.after := by
    rw [opened]
    simp
  obtain ⟨mid, rfl, -⟩ := Outline.cut_of_lt (opened.symm.trans split)
    (by rw [← site.opening_eq, ← hstart]; exact behind)
  obtain ⟨mid', hinner, -⟩ := Outline.cut_of_lt (split.symm.trans closed) (by
    rw [← hstart, Outline.byteSize_text_append, Outline.byteSize_text_cons, ← site.opening_eq,
      Outline.byteSize_openParen, ← Nat.add_assoc]
    exact inside)
  rw [List.append_assoc (_ ++ _)] at hinner
  have held : site.inner = mid ++ .callee c.name :: mid' :=
    (List.cons.inj (List.append_cancel_left hinner)).2
  exact h.innermost c.name (by simp [held])

/-- A call that starts before the one that is selected contains it. -/
theorem Selected.contains (h : site.Selected (Outline.ofText text)) {c : Call} (hc : c.In text)
    (lt : c.start < site.start) :
    c.opening < site.start ∧
      ∃ closing, Matches text c.opening closing ∧ site.closing < closing := by
  refine ⟨hc.opening_lt h.call_in lt, ?_⟩
  obtain ⟨before, gap, after, split, blank, hstart, hopening⟩ := Call.in_iff.mp hc
  obtain ⟨mid, hbefore, hrest⟩ :=
    Outline.cut_of_lt (split.symm.trans h.whole) (by rw [← hstart]; exact lt)
  obtain ⟨gap', mid, inner, after', rfl, blank', hafter, pairs⟩ := h.contained hbefore
  rw [List.append_assoc] at hrest
  obtain ⟨rfl, rfl⟩ := blank.unique blank' hrest
  refine ⟨_, matches_iff.mpr ⟨before ++ .callee c.name :: gap, _, after', ?_, pairs, ?_, rfl⟩, ?_⟩
  · rw [split, hafter]
    simp
  · rw [Outline.byteSize_before_paren, hopening, hstart]
  · rw [closing, opening, start, hbefore]
    simp only [Outline.byteSize_text_append, Outline.byteSize_text_cons,
      Outline.byteSize_openParen, Outline.byteSize_closeParen, Outline.byteSize_callee]
    omega

end CallSite

namespace Outline

/-- The first call of a text, where it does not close. -/
theorem unclosed_leftmost {text w : List Char} {before gap rest : Outline}
    (split : ofText text = before ++ .callee w :: (gap ++ openParen :: rest))
    (first : ∀ w, .callee w ∉ before) (blank : gap.Gap)
    (unpaired : ∀ inner after, rest = inner ++ closeParen :: after → ¬ Pairs inner) :
    ∃ c : Call, c.In text ∧ (∀ d : Call, d.In text → c.start ≤ d.start) ∧
      (∀ closing, ¬ Matches text c.opening closing) ∧ c.name = w ∧
      c.opening = byteSize before.text + byteSize w + byteSize gap.text := by
  refine ⟨⟨w, byteSize before.text, byteSize before.text + byteSize w + byteSize gap.text⟩,
    Call.in_iff.mpr ⟨before, gap, rest, split, blank, rfl, rfl⟩, ?_, ?_, rfl, rfl⟩
  · intro d hd
    by_contra lt
    obtain ⟨before', gap', after', split', -, hstart', -⟩ := Call.in_iff.mp hd
    obtain ⟨mid, hbefore, -⟩ := cut_of_lt (split'.symm.trans split)
      (by rw [← hstart']; exact Nat.lt_of_not_le lt)
    exact first d.name (by simp [hbefore])
  · intro closing closes
    obtain ⟨front, inner, after, split', pairs, hopening, -⟩ := matches_iff.mp closes
    have opened : ofText text = (before ++ .callee w :: gap) ++ openParen :: rest := by
      rw [split]
      simp
    obtain ⟨-, -, hrest⟩ := cut_of_eq (opened.symm.trans split') (by decide) (by decide)
      (by rw [byteSize_before_paren, ← hopening])
    exact unpaired _ _ hrest pairs

/-- What is found is the first call that contains no other, in the order of
evaluation.  There is none exactly if the text has no call; the site is at a
call, from its name to the parenthesis that closes it, no call starts inside,
and all that start before it contain it.  The search fails exactly where calls
that contain each other, from the first on, lead to one that never closes. -/
theorem innermost_selects (text : List Char) :
    ((ofText text).innermost = .ok none ↔ ∀ c : Call, ¬ c.In text) ∧
    (∀ site, (ofText text).innermost = .ok (some site) →
      site.call.In text ∧ Matches text site.opening site.closing ∧
      (∀ c : Call, c.In text → ¬ (site.opening < c.start ∧ c.start < site.closing)) ∧
      ∀ c : Call, c.In text → c.start < site.start → c.opening < site.start ∧
        ∃ closing, Matches text c.opening closing ∧ site.closing < closing) ∧
    ∀ e, (ofText text).innermost = .error e ↔ ∃ c : Call, Followed text c ∧
      (∀ closing, ¬ Matches text c.opening closing) ∧
      e = .parse c.opening (.unclosedCall (String.ofList c.name)) := by
  rw [innermost]
  rcases Announced.innermostFrom_cases (announced_ofText text)
      (Nat.lt_succ_self (ofText text).length) with
    ⟨found, none⟩ | ⟨site, found, sel⟩ |
      ⟨before, w, gap, rest, split, first, blank, unpaired, found⟩
  · have noCall : ∀ c : Call, ¬ c.In text := by
      intro c hc
      obtain ⟨before, gap, after, split, -⟩ := Call.in_iff.mp hc
      exact none c.name (by simp [split])
    rw [found]
    refine ⟨⟨fun _ => noCall, fun _ => rfl⟩, (fun _ eq => by cases eq), fun _ =>
      ⟨(fun eq => by cases eq), ?_⟩⟩
    rintro ⟨c, followed, -⟩
    exact absurd followed.here (noCall c)
  · rw [found]
    refine ⟨⟨(fun eq => by cases eq), fun noCall => absurd sel.call_in (noCall _)⟩, ?_,
      fun _ => ⟨(fun eq => by cases eq), ?_⟩⟩
    · intro site' eq
      obtain rfl : site = site' := by simpa using eq
      exact ⟨sel.call_in, sel.matches, fun c hc => sel.not_between hc, fun c hc => sel.contains hc⟩
    · -- the first call is the one at the site or contains it, so it closes
      rintro ⟨c, followed, unmatched, -⟩
      rcases followed.leftmost_or_matched with leftmost | ⟨closing, closes⟩
      · rcases Nat.lt_or_eq_of_le (leftmost _ sel.call_in) with lt | same
        · obtain ⟨-, closing, closes, -⟩ := sel.contains followed.here lt
          exact absurd closes (unmatched closing)
        · rw [followed.here.eq_of_start sel.call_in same] at unmatched
          exact absurd sel.matches (unmatched _)
      · exact absurd closes (unmatched closing)
  · obtain ⟨c, here, leftmost, unmatched, rfl, place⟩ :=
      unclosed_leftmost split first blank unpaired
    rw [found, ← place]
    refine ⟨⟨(fun eq => by cases eq), fun noCall => absurd here (noCall _)⟩,
      (fun _ eq => by cases eq), fun e => ⟨?_, ?_⟩⟩
    · intro eq
      obtain rfl : _ = e := by simpa using eq
      exact ⟨c, .first here leftmost, unmatched, rfl⟩
    · rintro ⟨d, followed, unmatched', rfl⟩
      rcases followed.leftmost_or_matched with leftmost' | ⟨closing, closes⟩
      · have same := Nat.le_antisymm (leftmost' c here) (leftmost d followed.here)
        rw [followed.here.eq_of_start here same]
      · exact absurd closes (unmatched' closing)

end Outline

end FormulaSheet
