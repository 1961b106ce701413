import Mathlib.Data.List.TakeWhile
import FormulaSheet.Proofs.Brackets

/-!
# The arguments of a call

The text between the parentheses of a call is a row of blocks.  It is cut into
the blocks of its arguments, and blanks around an argument do not change its
tokens.

* `Block.split_tokens` — blocks are divided where their tokens are;
* `Spelled.exists_trimmed` — a spelled text without the blanks around it;
* `splitArguments_textOf` — the arguments of a call.
-/

namespace FormulaSheet

/-- Blocks are divided at a sign where their tokens are. -/
theorem Block.split_tokens {bs : List Block} {ts us : List Token} {s : Symbol}
    (h : tokens bs = ts ++ .symbol s :: us) :
    ∃ front cs back, bs = front ++ .sign cs s :: back ∧ tokens front = ts ∧ tokens back = us := by
  obtain ⟨front, others, rfl, hts, hothers⟩ := List.filterMap_eq_append_iff.mp h
  obtain ⟨gap, b, back, rfl, hgap, hb, hus⟩ := List.filterMap_eq_cons_iff.mp hothers
  cases b with
  | sign cs t =>
      cases hb
      have none : tokens gap = [] := List.filterMap_eq_nil_iff.mpr hgap
      refine ⟨front ++ gap, cs, back, by simp, ?_, hus⟩
      rw [tokens_append, none, List.append_nil]
      exact hts
  | blank c => cases hb
  | name w => cases hb
  | number cs x => cases hb
  | quoted q body s => cases hb

/-- A block with a token does not end in a blank. -/
theorem Block.exists_last {b : Block} {t : Token} (hvalid : b.Valid) (ht : b.token? = some t) :
    ∃ more c, b.text = more ++ [c] ∧ Character.isBlank c = false := by
  have last : (∀ c ∈ b.text, Character.isBlank c = false) →
      ∃ more c, b.text = more ++ [c] ∧ Character.isBlank c = false := by
    intro all
    rcases List.eq_nil_or_concat b.text with hnil | ⟨more, c, eq⟩
    · exact absurd hnil (text_ne_nil hvalid)
    · rw [List.concat_eq_append] at eq
      exact ⟨more, c, eq, all c (by simp [eq])⟩
  cases b with
  | blank c => cases ht
  | name w => exact last fun c hc => not_isBlank_of_isWord (isWord_of_isIdentifier hvalid c hc)
  | number cs x =>
      refine last fun c hc => ?_
      rcases numeral_chars hvalid.1 c hc with hdigit | hother
      · exact not_isBlank_of_isWord (isWord_of_isDigit hdigit)
      · have none : ['.', 'e', 'E', '+', '-'].all (fun d => !Character.isBlank d) = true := by
          decide
        simpa using List.all_eq_true.mp none c hother
  | quoted q body s =>
      refine ⟨q :: body, q, by simp [text], ?_⟩
      rcases hvalid.1 with rfl | rfl <;> decide
  | sign cs s => exact last fun c hc => (sign_marks hvalid c hc).2.2.1

namespace Spelled

/-- A spelled text without the blanks before it. -/
theorem exists_trimStart {bs : List Block} (h : Spelled bs) :
    ∃ core, Spelled core ∧ Block.textOf core = Character.trimStart (Block.textOf bs) ∧
      Block.tokens core = Block.tokens bs := by
  induction bs with
  | nil => exact ⟨[], trivial, rfl, rfl⟩
  | cons b bs ih =>
      cases ht : b.token? with
      | none =>
          cases b with
          | blank c =>
              obtain ⟨core, hcore, htext, htokens⟩ := ih h.2.2
              have hblank : Character.isBlank c = true := h.1
              refine ⟨core, hcore, ?_, htokens⟩
              rw [htext, Block.textOf_cons, Block.text, List.singleton_append,
                Character.trimStart, Character.trimStart, List.dropWhile_cons_of_pos hblank]
          | name w => cases ht
          | number cs x => cases ht
          | quoted q body s => cases ht
          | sign cs s => cases ht
      | some t =>
          obtain ⟨c, more, eq, hblank, -⟩ := Block.readsAs h.1 h.2.1 ht
          refine ⟨b :: bs, h, ?_, rfl⟩
          rw [Block.textOf_cons, eq, List.cons_append, Character.trimStart,
            List.dropWhile_cons_of_neg (by simp [hblank])]

/-- A spelled text without the blanks behind it. -/
theorem exists_trimEnd {bs : List Block} (h : Spelled bs) :
    ∃ core, Spelled core ∧ Block.textOf core = Character.trimEnd (Block.textOf bs) ∧
      Block.tokens core = Block.tokens bs := by
  induction bs using List.reverseRecOn with
  | nil => exact ⟨[], trivial, rfl, rfl⟩
  | append_singleton bs b ih =>
      have alone : Spelled [b] := h.back
      cases ht : b.token? with
      | none =>
          cases b with
          | blank c =>
              obtain ⟨core, hcore, htext, htokens⟩ := ih h.front
              have hblank : Character.isBlank c = true := alone.1
              refine ⟨core, hcore, ?_, by rw [htokens]; simp⟩
              rw [htext, Block.textOf_append]
              simp [Character.trimEnd, Character.dropEndWhile, Block.text, hblank]
          | name w => cases ht
          | number cs x => cases ht
          | quoted q body s => cases ht
          | sign cs s => cases ht
      | some t =>
          obtain ⟨more, c, eq, hblank⟩ := Block.exists_last alone.1 ht
          refine ⟨bs ++ [b], h, ?_, rfl⟩
          simp [Character.trimEnd, Character.dropEndWhile, eq, hblank]

/-- A spelled text without the blanks around it. -/
theorem exists_trimmed {bs : List Block} (h : Spelled bs) :
    ∃ core, Spelled core ∧ Block.textOf core = Character.trim (Block.textOf bs) ∧
      Block.tokens core = Block.tokens bs := by
  obtain ⟨middle, hmiddle, htext, htokens⟩ := h.exists_trimStart
  obtain ⟨core, hcore, htext', htokens'⟩ := hmiddle.exists_trimEnd
  exact ⟨core, hcore, by rw [htext', htext]; rfl, htokens'.trans htokens⟩

end Spelled

/-- What the tokens of a part derive is what its text is parsed to, without the
blanks around it. -/
theorem Spelled.ofChars_trim {part : List Block} (h : Spelled part) {e : Expr}
    (derived : Derives .conditional (Block.tokens part) e) :
    Expr.ofChars (Character.trim (Block.textOf part)) = .ok e := by
  obtain ⟨core, hcore, htext, htokens⟩ := h.exists_trimmed
  refine Expr.ofChars_eq_ok_iff.mpr ⟨core, hcore, htext, ?_⟩
  exact Parser.parseTokens_eq_ok_iff.mpr ⟨_, .inl rfl, by rw [htokens]; exact derived⟩

/-- A text is blank where it has no tokens. -/
theorem Spelled.isEmpty_trim_iff {bs : List Block} (h : Spelled bs) :
    (Character.trim (Block.textOf bs)).isEmpty = true ↔ Block.tokens bs = [] := by
  constructor
  · intro hempty
    obtain ⟨core, hcore, htext, htokens⟩ := h.exists_trimmed
    rw [← htext, List.isEmpty_iff] at hempty
    obtain rfl := hcore.eq_nil hempty
    exact htokens.symm
  · intro hnil
    have blanks : ∀ c ∈ Block.textOf bs, Character.isBlank c = true := by
      intro c hc
      obtain ⟨b, hb, hmem⟩ := List.mem_flatMap.mp hc
      have none := List.filterMap_eq_nil_iff.mp hnil b hb
      cases b with
      | blank d =>
          obtain rfl : c = d := by simpa [Block.text] using hmem
          exact h.valid _ hb
      | name w => cases none
      | number cs x => cases none
      | quoted q body s => cases none
      | sign cs s => cases none
    have start : Character.trimStart (Block.textOf bs) = [] :=
      List.dropWhile_eq_nil_iff.mpr blanks
    rw [Character.trim, start]
    rfl

/-- The text of an expression is not blank. -/
theorem Expr.not_blank_of_parsed {cs : List Char} {e : Expr} (h : Expr.ofChars cs = .ok e) :
    ¬ (Character.trim cs).isEmpty = true := by
  obtain ⟨bs, spelled, rfl, parsed⟩ := Expr.ofChars_eq_ok_iff.mp h
  rw [spelled.isEmpty_trim_iff]
  intro blank
  rw [blank] at parsed
  cases parsed

/-- The text of arguments is cut at the commas between their tokens. -/
theorem splitFrom_joined {segments : List (List Token)} (hne : segments ≠ [])
    (neutral : ∀ ts ∈ segments, Neutral Symbol.bracketRole ts) {bs : List Block}
    (h : Spelled bs) (eq : Block.tokens bs = joined segments) (out : List (List Char)) :
    ∃ parts : List (List Block), parts.map Block.tokens = segments ∧
      (∀ part ∈ parts, Spelled part) ∧
      splitFrom 0 [] out (bs.flatMap Block.items) =
        out.reverse ++ parts.map fun part => Character.trim (Block.textOf part) := by
  induction segments generalizing bs out with
  | nil => exact absurd rfl hne
  | cons ts segments ih =>
      have hts := neutral ts List.mem_cons_self
      cases segments with
      | nil =>
          rw [joined_singleton] at eq
          refine ⟨[bs], by rw [List.map_singleton, eq], by simpa using h, ?_⟩
          have even : depthAfter Symbol.bracketRole 0 (Block.tokens bs) = some 0 := by
            rw [eq]
            exact hts.depthAfter 0
          have passed := splitFrom_items h.valid even [] out []
          rw [List.append_nil] at passed
          rw [← Int.natCast_zero, passed]
          simp [splitFrom]
      | cons us segments =>
          rw [joined_cons_cons] at eq
          obtain ⟨front, cs, back, rfl, hfront, hback⟩ := Block.split_tokens eq
          obtain ⟨parts, hparts, hspelled, hsplit⟩ := ih (by simp)
            (fun vs hvs => neutral vs (List.mem_cons_of_mem _ hvs))
            (show Spelled back from h.back.2.2) hback
            (Character.trim (Block.textOf front) :: out)
          refine ⟨front :: parts, by simp [hfront, hparts],
            List.forall_mem_cons.mpr ⟨h.front, hspelled⟩, ?_⟩
          have comma : cs = [','] := by
            have table : ∀ p ∈ signs, p.2 = .comma → p.1 = [','] := by decide
            exact table _ h.back.1 rfl
          subst comma
          have even : depthAfter Symbol.bracketRole 0 (Block.tokens front) = some 0 := by
            rw [hfront]
            exact hts.depthAfter 0
          have passed := splitFrom_items h.front.valid even [] out
            ((Block.sign [','] .comma :: back).flatMap Block.items)
          rw [List.flatMap_append, ← Int.natCast_zero, passed]
          simpa [Block.items, splitFrom] using hsplit

/-- The arguments of a call are the trimmed texts of blocks with their
tokens. -/
theorem splitArguments_textOf {items : List ItemPhrase}
    (hitems : ∀ i ∈ items, Derives .conditional i.tokens i.tree) {bs : List Block}
    (h : Spelled bs) (eq : Block.tokens bs = joined (items.map ItemPhrase.tokens)) :
    ∃ parts : List (List Block), parts.map Block.tokens = items.map ItemPhrase.tokens ∧
      (∀ part ∈ parts, Spelled part) ∧
      splitArguments (Block.textOf bs) =
        parts.map fun part => Character.trim (Block.textOf part) := by
  unfold splitArguments
  cases items with
  | nil =>
      rw [if_pos (h.isEmpty_trim_iff.mpr eq)]
      exact ⟨[], rfl, by simp, rfl⟩
  | cons i items =>
      have nonempty : Block.tokens bs ≠ [] := by
        have first := (hitems i List.mem_cons_self).ne_nil
        rw [eq, List.map_cons, joined]
        simp [first]
      rw [if_neg fun hempty => nonempty (h.isEmpty_trim_iff.mp hempty)]
      have neutral : ∀ ts ∈ (i :: items).map ItemPhrase.tokens,
          Neutral Symbol.bracketRole ts := by
        intro ts hts
        obtain ⟨j, hj, rfl⟩ := List.mem_map.mp hts
        exact (hitems j hj).neutral bracketing_bracketRole
      obtain ⟨parts, hparts, hspelled, hsplit⟩ := splitFrom_joined (by simp) neutral h eq []
      rw [h.items]
      exact ⟨parts, hparts, hspelled, hsplit⟩

end FormulaSheet
