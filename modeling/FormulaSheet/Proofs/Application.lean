import FormulaSheet.Proofs.Depth
import FormulaSheet.Proofs.Exhaustion
import FormulaSheet.Proofs.Resolution
import FormulaSheet.Proofs.Segments
import FormulaSheet.Proofs.Substitution

/-!
# A call of a function on data

A formula that is one call of a function on data is found as a call, cut into
its arguments, answered and spliced, and what is left is the literal of a
value.  So reducing its text is making the call.

* `Expr.Data` — items that are data: they have values, and call nothing;
* `Outline.innermost_call` — the call is the innermost one;
* `Derives.among` — the trees in a tree are derived from some of its tokens;
* `Setting.from_reduce_call` — reducing the text is making the call;
* `Evaluator.evaluate_call` — so is evaluating the formula;
* `ofChars_callText`, `mentions_callText` — calls on literals are such.
-/

namespace FormulaSheet

/-- No call is answered. -/
def noAnswers (nan : NanChoice) : Answers := ⟨fun _ _ _ => False, nan⟩

/-- Items that have these values whatever functions there are. -/
abbrev Expr.Data (nan : NanChoice) (items : List Expr) (vs : List Value) : Prop :=
  Expr.YieldsItems (noAnswers nan) items vs

/-- Every caller serves no answers. -/
theorem Expr.serves_noAnswers {call : Caller} {nan : NanChoice} (h : call.nan = nan)
    (r : RandomSource) : Serves call r (noAnswers nan) :=
  ⟨h, fun answer => answer.elim, fun _ answer => answer.elim⟩

/-- Each item that is plain data has its value. -/
theorem Expr.data_of_asLiteral? (nan : NanChoice) {items : List Expr}
    (h : ∀ e ∈ items, e.asLiteral?.isSome = true) :
    Data nan items (items.filterMap asLiteral?) := by
  induction items with
  | nil => rfl
  | cons e items ih =>
      obtain ⟨here, more⟩ := List.forall_mem_cons.mp h
      obtain ⟨v, hv⟩ := Option.isSome_iff_exists.mp here
      rw [List.filterMap_cons_some hv]
      exact ⟨v, _, Expr.yields_of_asLiteral? (noAnswers nan) e v hv, ih more, rfl⟩

/-- Data has its values in any scope. -/
theorem Expr.Data.evaluateItems {nan : NanChoice} {items : List Expr} {vs : List Value}
    (h : Data nan items vs) {call : Caller} (hcall : call.nan = nan) (scope : Scope)
    (r : RandomSource) : Run.from (Expr.evaluateItems call scope [] items) r = (.ok vs, r) :=
  YieldsItems.evaluate (serves_noAnswers hcall r) scope items vs [] h

/-- Nothing is called among the tokens of data. -/
theorem not_call_of_data {items : List ItemPhrase}
    (hitems : ∀ i ∈ items, Derives .conditional i.tokens i.tree) {nan : NanChoice}
    {vs : List Value} (data : Expr.Data nan (items.map ItemPhrase.tree) vs)
    {pre rest : List Token} {f : String} :
    joined (items.map ItemPhrase.tokens) ≠ pre ++ .name f :: .symbol .openParen :: rest := by
  intro eq
  obtain ⟨front, i, back, l, r, pre', rest', rfl, hi, -⟩ := split_joined eq
  obtain ⟨inner, post, C, -, -, tree, hole, -⟩ := (hitems i (by simp)).focused hi
  rw [List.map_append, List.map_cons] at data
  obtain ⟨v, hv, -⟩ := Hole.among_items _ data
  rw [tree] at hv
  obtain ⟨w, ⟨vs', -, answer⟩, -⟩ := hole _ _ _ hv
  exact answer

namespace Outline

theorem innermost_of_callees {o : Outline} (h : o.callees = []) : o.innermost = .ok none := by
  have absent : firstCall? [] o = none := by
    rcases found : firstCall? [] o with _ | ⟨front, w, rest⟩
    · rfl
    · have split := firstCall?_eq_some found
      rw [List.reverse_nil, List.nil_append] at split
      have among : String.ofList w ∈ o.callees := by
        rw [split]
        simp [callees, Piece.callee?]
      rw [h] at among
      cases among
  rw [innermost, innermostFrom, openCall?, absent]

/-- A name with data in parentheses is the innermost call of its text. -/
theorem innermost_call {f : List Char} {inner : List Block} {items : List ItemPhrase}
    (spelled : Spelled (.name f :: .sign ['('] .openParen :: (inner ++ [.sign [')'] .closeParen])))
    (notReserved : isReserved (String.ofList f) = false)
    (hinner : Block.tokens inner = joined (items.map ItemPhrase.tokens))
    (hitems : ∀ i ∈ items, Derives .conditional i.tokens i.tree) {vs : List Value}
    {nan : NanChoice} (data : Expr.Data nan (items.map ItemPhrase.tree) vs) :
    (ofText (callText f (Block.textOf inner))).innermost =
      .ok (some ⟨[], f, [], Block.outline inner, []⟩) := by
  have text : callText f (Block.textOf inner) =
      Block.textOf (.name f :: .sign ['('] .openParen :: (inner ++ [.sign [')'] .closeParen])) := by
    simp [callText, Block.text]
  have whole : ofText (callText f (Block.textOf inner)) =
      .callee f :: openParen :: (Block.outline inner ++ [closeParen]) := by
    rw [text, spelled.outline]
    have behind : Block.outline (inner ++ [.sign [')'] .closeParen]) = _ :=
      Block.outline_append rfl inner
    simp [Block.outline, Block.pieces, Block.namePiece, Block.opens, notReserved, behind,
      Block.items, openParen, closeParen]
  have closed : close? 0 [] (Block.outline inner ++ [closeParen]) =
      some (Block.outline inner, []) := by
    have neutral : Neutral Symbol.parenRole (Block.tokens inner) := by
      rw [hinner]
      exact neutral_joined hitems
    rw [close?_outline (fun b hb => spelled.valid b (by simp [hb])) (neutral.depthAfter 0),
      close?_end, List.append_nil, List.reverse_reverse]
  have none : ∀ room, innermostFrom room (Block.outline inner) = .ok none := by
    intro room
    have absent : firstCall? [] (Block.outline inner) = none := by
      rcases firstCall?_outline inner [] with none | ⟨front, w, tail, o, split, hopens, -⟩
      · exact none
      · subst split
        have htail : ∀ b ∈ tail, b.Valid := fun b hb => spelled.valid b (by simp [hb])
        obtain ⟨gap, more, rfl, hgap, -⟩ := Block.exists_gap htail hopens
        have split : joined (items.map ItemPhrase.tokens) = Block.tokens front ++
            .name (String.ofList w) :: .symbol .openParen :: Block.tokens more := by
          rw [← hinner]
          simp [hgap]
        exact absurd split (not_call_of_data hitems data)
    cases room with
    | zero => rfl
    | succ room => rw [innermostFrom, openCall?, absent]
  have opened : openCall? (.callee f :: openParen :: (Block.outline inner ++ [closeParen])) =
      some ([], f, [], Block.outline inner ++ [closeParen]) := by
    simp [openCall?, firstCall?]
  rw [whole, innermost, innermostFrom, opened]
  simp only [closed, none]

end Outline

/-- A tree that is derived from some of these tokens. -/
def Among (t : Expr) (ts : List Token) : Prop :=
  ∃ l us r p, ts = l ++ us ++ r ∧ Derives p us t

theorem Among.within {t : Expr} {ts us : List Token} (h : Among t ts) (l r : List Token)
    (eq : us = l ++ ts ++ r) : Among t us := by
  obtain ⟨front, ts, back, p, rfl, derived⟩ := h
  exact ⟨l ++ front, ts, back ++ r, p, by simp [eq], derived⟩

theorem among_joined {t : Expr} {segments : List (List Token)} {ts : List Token}
    (hts : ts ∈ segments) (h : Among t ts) : Among t (joined segments) := by
  induction segments with
  | nil => cases hts
  | cons us segments ih =>
      cases segments with
      | nil =>
          obtain rfl := List.mem_singleton.mp hts
          rwa [joined_singleton]
      | cons vs segments =>
          rw [joined_cons_cons]
          rcases List.mem_cons.mp hts with rfl | hts
          · exact h.within [] _ rfl
          · exact (ih hts).within (us ++ [.symbol .comma]) [] (by simp)

/-- What is in one of the items is derived from tokens of their list. -/
theorem among_items {t : Expr} {items : List ItemPhrase}
    (each : ∀ i ∈ items, t ∈ i.tree.subterms → Among t i.tokens)
    (ht : t ∈ Expr.itemSubterms (items.map ItemPhrase.tree)) :
    Among t (joined (items.map ItemPhrase.tokens)) := by
  obtain ⟨e, he, ht⟩ := Expr.mem_itemSubterms_iff.mp ht
  obtain ⟨i, hi, rfl⟩ := List.mem_map.mp he
  exact among_joined (List.mem_map_of_mem hi) (each i hi ht)

/-- What is in one of the fields is derived from tokens behind its key. -/
theorem among_fields {t : Expr} {fields : List FieldPhrase}
    (each : ∀ f ∈ fields, t ∈ f.tree.subterms → Among t f.tokens)
    (ht : t ∈ Expr.fieldSubterms (fields.map FieldPhrase.field)) :
    Among t (joined (fields.map FieldPhrase.whole)) := by
  obtain ⟨e, he, ht⟩ := Expr.mem_fieldSubterms_iff.mp ht
  obtain ⟨g, hg, rfl⟩ := List.mem_map.mp he
  obtain ⟨f, hf, rfl⟩ := List.mem_map.mp hg
  have whole : Among t f.whole := (each f hf ht).within [f.key, .symbol .colon] [] (by
    simp [FieldPhrase.whole])
  exact among_joined (List.mem_map_of_mem hf) whole

/-- The subterms of what an operator builds are those of its operands, and itself. -/
theorem subterms_of_infixOp? {k : Nat} {s : Symbol} {build : Expr → Expr → Expr}
    (h : infixOp? k s = some build) (l r : Expr) :
    (build l r).subterms = build l r :: (l.subterms ++ r.subterms) := by
  obtain rfl | rfl | ⟨op, rfl⟩ := build_of_infixOp? h <;> rfl

/-- A tree in a tree is derived from some of its tokens. -/
theorem Derives.among {p : Phrase} {ts : List Token} {e t : Expr} (h : Derives p ts e)
    (ht : t ∈ e.subterms) : Among t ts := by
  have self : ∀ {p : Phrase} {ts : List Token} {e : Expr}, Derives p ts e → t = e → Among t ts := by
    rintro p ts e h rfl
    exact ⟨[], ts, [], p, by simp, h⟩
  induction h with
  | plain _ ih => exact ih ht
  | @choice ts us vs c y n hc hy hn ihc ihy ihn =>
      rcases List.mem_cons.mp ht with same | ht
      · exact self (.choice hc hy hn) same
      · rcases List.mem_append.mp ht with ht | inNo
        · rcases List.mem_append.mp ht with inCondition | inYes
          · exact (ihc inCondition).within [] _ rfl
          · exact (ihy inYes).within (ts ++ [.symbol .question]) (.symbol .colon :: vs) (by simp)
        · exact (ihn inNo).within (ts ++ .symbol .question :: (us ++ [.symbol .colon])) [] (by simp)
  | tighter _ _ ih => exact ih ht
  | @binary k s build ts us l r hop hl hr ihl ihr =>
      rw [subterms_of_infixOp? hop, List.mem_cons, List.mem_append] at ht
      rcases ht with same | inLeft | inRight
      · exact self (.binary hop hl hr) same
      · exact (ihl inLeft).within [] _ rfl
      · exact (ihr inRight).within (ts ++ [.symbol s]) [] (by simp)
  | top _ ih => exact ih ht
  | @sign s op ts e hop he ih =>
      rcases List.mem_cons.mp ht with same | ht
      · exact self (.sign hop he) same
      · exact (ih ht).within [.symbol s] [] (by simp)
  | base _ ih => exact ih ht
  | number x => exact self (.number x) (List.mem_singleton.mp ht)
  | text s => exact self (.text s) (List.mem_singleton.mp ht)
  | name s =>
      refine self (.name s) ?_
      unfold nameExpr at ht ⊢
      split at ht <;> exact List.mem_singleton.mp ht
  | call s hitems ih =>
      rcases List.mem_cons.mp ht with same | ht
      · exact self (.call s hitems) same
      · exact (among_items ih ht).within [.name s, .symbol .openParen] [.symbol .closeParen] rfl
  | paren _ ih => exact (ih ht).within [.symbol .openParen] [.symbol .closeParen] rfl
  | array hitems ih =>
      rcases List.mem_cons.mp ht with same | ht
      · exact self (.array hitems) same
      · exact (among_items ih ht).within [.symbol .openBracket] [.symbol .closeBracket] rfl
  | object hkeys hfields ih =>
      rcases List.mem_cons.mp ht with same | ht
      · exact self (.object hkeys hfields) same
      · exact (among_fields ih ht).within [.symbol .openBrace] [.symbol .closeBrace] rfl

/-- No parenthesis opens in the literal of a value. -/
theorem Value.openParen_not_mem_literal (v : Value) : .mark '(' ∉ Item.ofText v.literal := by
  intro hmem
  obtain ⟨front, back, split⟩ := List.append_of_mem hmem
  have none := v.bare_literal.bound
  rw [split, Item.boundFrom_append, Item.boundFrom] at none
  have one : ∀ afterPoint, (Item.mark '(').bound afterPoint = 1 := fun _ => rfl
  rw [one] at none
  omega

/-- A value that is parsed is a tree without calls. -/
theorem Value.no_call_of_parsed {v : Value} {e : Expr} (parsed : Expr.ofChars v.splice = .ok e)
    (f : String) (args : List Expr) : .call f args ∉ e.subterms := by
  intro among
  obtain ⟨bs, spelled, htext, htokens⟩ := Expr.ofChars_eq_ok_iff.mp parsed
  obtain ⟨body, ends, derived⟩ := Parser.parseTokens_eq_ok_iff.mp htokens
  have whole : Among (.call f args) (Block.tokens bs) := by
    rcases ends with eq | eq
    · exact (derived.among among).within [] [] (by simp [eq])
    · exact (derived.among among).within [] [.symbol .semicolon] (by simp [eq])
  obtain ⟨l, us, r, p, tokens, called⟩ := whole
  obtain ⟨n, items, rfl, -, -⟩ := called.exists_of_call
  obtain ⟨rest, cut⟩ : ∃ rest, Block.tokens bs =
      (l ++ List.replicate n (.symbol .openParen) ++ [.name f]) ++ .symbol .openParen :: rest :=
    ⟨_, by rw [tokens]; simp; rfl⟩
  obtain ⟨front, cs, back, rfl, hfront, -⟩ := Block.split_tokens cut
  have table : ∀ p ∈ signs, p.2 = .openParen → p.1 = ['('] := by decide
  obtain rfl := table _ spelled.back.1 rfl
  have items : Item.ofText v.splice = front.flatMap Block.items ++ .mark '(' ::
      back.flatMap Block.items := by
    rw [← htext, spelled.items]
    simp [Block.items]
  rcases v.ofText_splice with ⟨-, eq⟩ | ⟨-, eq⟩
  · -- the only parenthesis is at the front, where no name comes before it
    rw [eq] at items
    cases first : front.flatMap Block.items with
    | nil =>
        have named : Token.name f ∈ Block.tokens front := by simp [hfront]
        obtain ⟨w, hw, -⟩ := Block.exists_of_name_mem named
        cases List.flatMap_eq_nil_iff.mp first _ hw
    | cons i is =>
        rw [first] at items
        have behind : .mark '(' ∈ Item.ofText v.literal ++ [.mark ')'] := by
          simp [(List.cons.inj items).2]
        rcases List.mem_append.mp behind with literal | paren
        · exact v.openParen_not_mem_literal literal
        · simp at paren
  · exact v.openParen_not_mem_literal (by simp [← eq, items])

/-- The literal of a value calls nothing. -/
theorem Value.innermost_splice (v : Value) : (Outline.ofText v.splice).innermost = .ok none := by
  refine Outline.innermost_of_callees ?_
  have first : Item.NoWordFirst [] := by simp [Item.NoWordFirst]
  have alone := v.callees_splice first false
  rw [List.append_nil] at alone
  exact alone

namespace Setting

variable (s : Setting)

theorem resolveOne_of_none {text : List Char} (h : (Outline.ofText text).innermost = .ok none) :
    s.resolveOne text = pure none := by
  unfold resolveOne
  rw [h]

/-- The literal of a value is resolved. -/
theorem resolveFrom_splice (room : Nat) (v : Value) :
    s.resolveFrom room v.splice = pure v.splice := by
  cases room with
  | zero => rfl
  | succ room =>
      rw [resolveFrom, s.resolveOne_of_none v.innermost_splice]
      rfl

/-- Reducing a call on data is making the call and going on with the literal of
its value. -/
theorem from_reduce_call {f text : List Char} {es : List Expr} {vs : List Value}
    (parsed : Expr.ofChars (callText f text) = .ok (.call (String.ofList f) es))
    (notReserved : isReserved (String.ofList f) = false) (data : Expr.Data s.host.nan es vs)
    (r : RandomSource) : Run.from (s.reduce (callText f text)) r =
      Run.from (s.call maxCallDepth (String.ofList f) vs >>= fun v => s.finish v.splice) r := by
  obtain ⟨inner, items, spelled, rfl, hinner, hitems, rfl⟩ := exists_blocks_of_call parsed
  have found := Outline.innermost_call spelled notReserved hinner hitems data
  have bound : callBound (callText f (Block.textOf inner)) ≠ 0 := by
    intro none
    rw [innermost_of_callBound none] at found
    cases found
  obtain ⟨room, hroom⟩ := Nat.exists_eq_succ_of_ne_zero bound
  obtain ⟨parts, hparts, hspelled, hsplit⟩ :=
    splitArguments_textOf hitems spelled.2.2.2.2.front hinner
  have arguments := from_arguments (Expr.serves_noAnswers (s.nan_call maxCallDepth) r) hitems
    hspelled hparts data
  have served : Run.from (s.serve ⟨[], f, [], Block.outline inner, []⟩) r =
      Run.from (s.call maxCallDepth (String.ofList f) vs) r := by
    rw [serve, Block.text_outline, hsplit, Run.from_bind_ok arguments]
  rcases called : Run.from (s.call maxCallDepth (String.ofList f) vs) r with ⟨outcome, after⟩
  rw [called] at served
  have one := Run.from_map (f := fun v : Value =>
    some (CallSite.replace ⟨[], f, [], Block.outline inner, []⟩ v.splice)) served
  rw [← s.resolveOne_of_some found] at one
  rw [reduce, resolve, hroom, resolveFrom]
  cases outcome with
  | error e => rw [Run.from_bind_error called, Run.from_bind_error (Run.from_bind_error one)]
  | ok v =>
      rw [Run.from_bind_ok called]
      have rest : CallSite.replace ⟨[], f, [], Block.outline inner, []⟩ v.splice = v.splice := by
        simp [CallSite.replace, Outline.text]
      rw [Run.from_bind_ok (a := v.splice) (s := after)]
      rw [Run.from_bind_ok one]
      simp only [rest, s.resolveFrom_splice]
      rfl

/-- The literal of a value comes to the same, whatever functions there are. -/
theorem finish_splice {s s' : Setting} (nan : s'.host.nan = s.host.nan) (v : Value) :
    s'.finish v.splice = s.finish v.splice := by
  unfold finish
  cases parsed : Expr.ofChars v.splice with
  | error cause => rfl
  | ok e =>
      have same : e.evaluate (s'.call maxCallDepth) .empty =
          e.evaluate (s.call maxCallDepth) .empty :=
        (Expr.sameUnless_evaluate (P := fun _ => False)
          ((s'.nan_call _).trans (nan.trans (s.nan_call _).symm)) (fun _ _ none => none.elim)
          .empty e (Value.no_call_of_parsed parsed)).eq
      simp only [evaluate, same]

end Setting

/-- What begins and ends with other characters has no blanks around it. -/
theorem Character.trim_eq_self {c d : Char} {cs more : List Char} (first : isBlank c = false)
    (last : isBlank d = false) (eq : c :: cs = more ++ [d]) : trim (c :: cs) = c :: cs := by
  rw [trim, trimStart, List.dropWhile_cons_of_neg (by simp [first]), eq]
  simp [trimEnd, dropEndWhile, last]

/-- A call has no blanks around it, and no equals sign before it. -/
theorem trim_callText {f : List Char} (hf : isIdentifier f = true) (text : List Char) :
    Character.trim (callText f text) = callText f text ∧
      ∀ more, callText f text ≠ '=' :: more := by
  obtain ⟨c, cs, rfl⟩ : ∃ c cs, f = c :: cs := by
    cases f with
    | nil => cases hf
    | cons c cs => exact ⟨c, cs, rfl⟩
  have word : Character.isWord c = true := isWord_of_isIdentifier hf c List.mem_cons_self
  constructor
  · have ends : c :: (cs ++ '(' :: (text ++ [')'])) = (c :: (cs ++ '(' :: text)) ++ [')'] := by
      simp
    exact Character.trim_eq_self (not_isBlank_of_isWord word) (by decide) ends
  · intro more eq
    obtain ⟨rfl, -⟩ := List.cons.inj eq
    exact absurd word (by decide)

/-- A call is all of its formula. -/
theorem formulaBody_callText {f : List Char} (hf : isIdentifier f = true) (text : List Char) :
    formulaBody (callText f text) = callText f text := by
  obtain ⟨trimmed, notEquals⟩ := trim_callText hf text
  rw [formulaBody, trimmed]
  split
  · rename_i more eq
    exact absurd eq (notEquals more)
  · exact trimmed

/-- A call on literals is read as the call on their trees. -/
theorem ofChars_callText {f : List Char} (hf : isIdentifier f = true) (ws : List Writing) :
    Expr.ofChars (callText f (Value.listed (ws.map fun w => w.value.literal))) =
      .ok (.call (String.ofList f) (ws.map (·.tree))) := by
  have brackets := spelled_brackets (show (['('], Symbol.openParen) ∈ signs by decide)
    (show ([')'], Symbol.closeParen) ∈ signs by decide) ⟨rfl, rfl⟩ (Writing.spelled_of_mem ws)
    (show Spelled [] from trivial)
  rw [List.append_nil] at brackets
  have derived := Derives.call (String.ofList f) (Writing.derives_item ws)
  rw [Writing.tokens_items, Writing.trees_items] at derived
  refine Expr.ofChars_eq_ok_iff.mpr ⟨.name f :: _, ⟨hf, ?_, brackets⟩, ?_, ?_⟩
  · intro c more eq
    rw [Block.textOf_cons] at eq
    obtain rfl : '(' = c := (List.cons.inj eq).1
    decide
  · rw [← Writing.texts_blocks, ← Block.textOf_rows]
    simp [callText, Block.text]
  · rw [Block.tokens_cons_of_some rfl, Block.tokens_brackets]
    exact Parser.parseTokens_eq_ok_iff.mpr ⟨_, .inl rfl, .conditional (.base derived)⟩

/-- A call is cut into what it calls, a parenthesis, and the rest. -/
theorem ofText_callText {f : List Char} (word : ∀ c ∈ f, Character.isWord c = true) (ne : f ≠ [])
    (text : List Char) : Item.ofText (callText f text) =
      .word f :: .mark '(' :: Item.ofText (text ++ [')']) := by
  have paren : Item.NotWord ('(' :: (text ++ [')'])) := by
    intro c more eq
    obtain rfl : '(' = c := (List.cons.inj eq).1
    decide
  have alone : Item.ofText f = [.word f] := Item.readFrom_wordChars word [] (by simpa)
  rw [callText, Item.ofText_append (fun c hc => Quoting.not_quote_of_isWord (word c hc)) paren,
    alone, Item.ofText_mark (by decide) (by decide)]
  rfl

/-- A call on bare text mentions nothing. -/
theorem mentions_callText {f text : List Char} (hf : isIdentifier f = true)
    (bare : Bare (text ++ [')'])) : (Outline.ofText (callText f text)).mentions = [] := by
  have nonempty : f ≠ [] := by
    rintro rfl
    cases hf
  have items := ofText_callText (isWord_of_isIdentifier hf) nonempty text
  have none : ∀ p ∈ Piece.readFrom false [] (Item.ofText (text ++ [')'])), p.reference? = none := by
    have quiet := Piece.length_filter_bounds false (Item.ofText (text ++ [')']))
    rw [bare.bound] at quiet
    intro p hp
    have plain := List.filter_eq_nil_iff.mp (List.eq_nil_of_length_eq_zero quiet) p hp
    cases p with
    | plain i => rfl
    | reference w => exact absurd rfl plain
    | callee w => exact absurd rfl plain
  have called : ∀ rest, (Piece.ofWord false f (.mark '(' :: rest)).reference? = .none := by
    intro rest
    unfold Piece.ofWord
    split
    · rfl
    · rw [if_pos (by simp [Piece.opens, Piece.isGap, Character.isBlank])]
      rfl
  rw [Outline.mentions, Outline.ofText, items, Piece.ofItems, Piece.readFrom_cons,
    Piece.readFrom_cons]
  refine List.filterMap_eq_nil_iff.mpr (List.forall_mem_cons.mpr ⟨called _, ?_⟩)
  exact List.forall_mem_cons.mpr ⟨rfl, none⟩

namespace Evaluator

/-- In a new evaluator a call on data, nothing of which is bound, is made and
its value is spliced. -/
theorem evaluate_call {E : Evaluator} (fresh : E.memo.results = .empty) {f text : List Char}
    {es : List Expr} {vs : List Value}
    (parsed : Expr.ofChars (callText f text) = .ok (.call (String.ofList f) es))
    (notReserved : isReserved (String.ofList f) = false)
    (data : Expr.Data E.setting.host.nan es vs)
    (unbound : ∀ name ∈ (Outline.ofText (callText f text)).mentions,
      E.bindings.get? name = none) :
    let made := Run.from (E.setting.call maxCallDepth (String.ofList f) vs >>= fun v =>
      E.setting.finish v.splice) E.memo.random
    let evaluated := E.evaluate (String.ofList (callText f text))
    evaluated.1.outcome = made.1 ∧ evaluated.2.memo.random = made.2 := by
  obtain ⟨inner, items, spelled, -⟩ := exists_blocks_of_call parsed
  have body := formulaBody_callText (show isIdentifier f = true from spelled.1) text
  have kept : textFrom E.bindings.get? (String.ofList (callText f text)) =
      callText f text := by
    rw [textFrom, String.toList_ofList, body, Outline.textWith_of_unbound unbound,
      Outline.text_ofText]
  dsimp only
  rw [evaluate_eq_evaluateFrom, outcome_evaluateFrom, snd_evaluateFrom, kept,
    ← E.setting.from_reduce_call parsed notReserved data]
  unfold Setting.conclude
  simp only [fresh, Table.get?_empty]
  exact ⟨rfl, rfl⟩

end Evaluator

end FormulaSheet
