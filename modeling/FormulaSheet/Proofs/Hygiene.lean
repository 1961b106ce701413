import FormulaSheet.Proofs.Draws
import FormulaSheet.Proofs.RoundTrip

/-!
# Substitution is hygienic

The names of a formula may be given their values before it is parsed or when
it is evaluated.  In the first case the text is rewritten, in the second the
tree is left alone and the values stand in its scope.  The two agree, except
where a name is an unquoted key of an object and not meant as a reference.

* `Block.substitute` — the rewriting of a text, block by block;
* `Derives.substitute` — it commutes with the grammar, and the tree that
  results evaluates like the first one in the scope;
* `Expr.parse_substituteTable` — the theorem about texts.
-/

namespace FormulaSheet

/-- What the names of a table are replaced by. -/
structure Patches (m : Table Value) where
  find? : String → Option Patch
  value_find? : ∀ name, (find? name).map Patch.value = m.get? name

/-- Where every value is legible there is a patch for every name. -/
theorem Patches.exists {m : Table Value}
    (legible : ∀ name v, m.get? name = some v → v.Legible) : Nonempty (Patches m) := by
  have each : ∀ name, ∃ p : Option Patch, p.map Patch.value = m.get? name := by
    intro name
    cases hv : m.get? name with
    | none => exact ⟨none, rfl⟩
    | some v =>
        obtain ⟨p, hp⟩ := (legible name v hv).exists_patch
        exact ⟨some p, by rw [Option.map_some, hp]⟩
  obtain ⟨find?, hfind⟩ := Classical.axiomOfChoice each
  exact ⟨⟨find?, hfind⟩⟩

section

variable {m : Table Value} (patches : Patches m)

/-- What a name is replaced by; reserved words stay. -/
def Patches.blocks (w : List Char) : List Block :=
  if isReserved (String.ofList w) then [.name w]
  else
    match patches.find? (String.ofList w) with
    | some p => p.blocks
    | none => [.name w]

/-- The blocks of a text after substitution; names that are called stay. -/
def Block.substitute : List Block → List Block
  | [] => []
  | .name w :: bs =>
    (if Block.opens bs then [.name w] else patches.blocks w) ++ substitute bs
  | b :: bs => b :: substitute bs

/-- What the token of a name is replaced by. -/
def Patches.tokens (s : String) : List Token :=
  if isReserved s then [.name s]
  else
    match patches.find? s with
    | some p => Block.tokens p.blocks
    | none => [.name s]

/-- What a name is replaced by: itself, or the patch of its value. -/
theorem Patches.blocks_cases (w : List Char) :
    patches.blocks w = [.name w] ∨ ∃ p : Patch, patches.blocks w = p.blocks := by
  unfold Patches.blocks
  split
  · exact .inl rfl
  · cases patches.find? (String.ofList w) with
    | none => exact .inl rfl
    | some p => exact .inr ⟨p, rfl⟩

/-- A name that is reserved or has no value stays; for any other there is a
patch of its value. -/
theorem Patches.tokens_cases (s : String) :
    (patches.tokens s = [.name s] ∧ (isReserved s = false → m.get? s = none)) ∨
      (isReserved s = false ∧
        ∃ p : Patch, m.get? s = some p.value ∧ patches.tokens s = Block.tokens p.blocks) := by
  unfold Patches.tokens
  by_cases reserved : isReserved s = true
  · rw [if_pos reserved]
    exact .inl ⟨rfl, fun free => absurd reserved (by rw [free]; decide)⟩
  · rw [if_neg reserved, ← patches.value_find? s]
    cases patches.find? s with
    | none => exact .inl ⟨rfl, fun _ => rfl⟩
    | some p => exact .inr ⟨by simpa using reserved, p, rfl, rfl⟩

/-- Tokens after substitution. -/
def Token.substitute : List Token → List Token
  | [] => []
  | .name s :: ts =>
    (if ts.head? = some (.symbol .openParen) then [.name s] else patches.tokens s) ++
      substitute ts
  | t :: ts => t :: substitute ts

/-- Blocks open with a parenthesis just if their tokens do. -/
theorem Block.opens_iff (bs : List Block) :
    Block.opens bs = true ↔ (Block.tokens bs).head? = some (.symbol .openParen) := by
  induction bs with
  | nil => simp [Block.opens]
  | cons b bs ih =>
      cases b with
      | blank c => exact ih
      | name w => simp [Block.opens]
      | number cs x => simp [Block.opens]
      | quoted q body s => simp [Block.opens]
      | sign cs s => simp [Block.opens]

/-- Substitution in blocks is substitution in their tokens. -/
theorem Block.tokens_substitute (bs : List Block) :
    Block.tokens (Block.substitute patches bs) = Token.substitute patches (Block.tokens bs) := by
  induction bs with
  | nil => rfl
  | cons b bs ih =>
      cases b with
      | blank c => exact ih
      | name w =>
          have one : Block.tokens (patches.blocks w) = patches.tokens (String.ofList w) := by
            unfold Patches.blocks Patches.tokens
            split
            · rfl
            · cases patches.find? (String.ofList w) <;> rfl
          rw [Block.substitute, Block.tokens_append, ih, Block.tokens_name, Token.substitute]
          by_cases called : Block.opens bs = true
          · rw [if_pos called, if_pos ((Block.opens_iff bs).mp called)]
            rfl
          · rw [if_neg called, if_neg (fun h => called ((Block.opens_iff bs).mpr h)), one]
      | number cs x => exact congrArg (.number x :: ·) ih
      | quoted q body s => exact congrArg (.text (String.ofList s) :: ·) ih
      | sign cs s => exact congrArg (.symbol s :: ·) ih

/-- Substitution in the outline of blocks is substitution in the blocks. -/
theorem Block.textWith_outline (bs : List Block) :
    (Block.outline bs).textWith m.get? = Block.textOf (Block.substitute patches bs) := by
  have plain : ∀ (items : List Item) (o : Outline),
      Outline.textWith m.get? (items.map .plain ++ o) =
        items.flatMap Item.text ++ o.textWith m.get? := by
    intro items o
    induction items with
    | nil => rfl
    | cons i items ih => simp [Outline.textWith, ih]
  induction bs with
  | nil => rfl
  | cons b bs ih =>
      cases b with
      | name w =>
          rw [Block.outline, Block.substitute, Block.textOf_append, ← ih]
          simp only [Block.pieces, Block.namePiece, List.cons_append, List.nil_append]
          have value := patches.value_find? (String.ofList w)
          unfold Patches.blocks
          split
          · simp [Outline.textWith, Item.text, Block.text]
          · split
            · simp [Outline.textWith, Block.text]
            · rw [Outline.textWith, ← value]
              cases patches.find? (String.ofList w) with
              | none => simp [Block.text]
              | some p => simp [p.text_eq]
      | blank c => exact (plain _ _).trans (by rw [ih, Block.flatMap_text_items]; rfl)
      | number cs x => exact (plain _ _).trans (by rw [ih, Block.flatMap_text_items]; rfl)
      | quoted q body s => exact (plain _ _).trans (by rw [ih, Block.flatMap_text_items]; rfl)
      | sign cs s => exact (plain _ _).trans (by rw [ih, Block.flatMap_text_items]; rfl)

/-- What stands before a text keeps fitting, since a name makes place for a
primary. -/
theorem Block.Fits.substitute {bs : List Block} (h : Spelled bs) {b : Block}
    (fits : b.Fits (Block.textOf bs)) : b.Fits (Block.textOf (Block.substitute patches bs)) := by
  cases bs with
  | nil => exact fits
  | cons c cs =>
      obtain ⟨hvalid, -, -⟩ := h
      cases c with
      | name w =>
          have kept := fits.behind hvalid (Block.substitute patches cs)
          rw [Block.substitute]
          split
          · exact kept
          · obtain stays | ⟨p, patched⟩ := patches.blocks_cases w
            · rwa [stays]
            · rw [patched, Block.textOf_append]
              exact fits.patch hvalid p _
      | blank d => exact fits.behind hvalid _
      | number ds x => exact fits.behind hvalid _
      | quoted q body s => exact fits.behind hvalid _
      | sign ds s => exact fits.behind hvalid _

/-- Substitution keeps a text spelled. -/
theorem Spelled.substitute {bs : List Block} (h : Spelled bs) :
    Spelled (Block.substitute patches bs) := by
  induction bs with
  | nil => trivial
  | cons b bs ih =>
      obtain ⟨hvalid, hfits, hbs⟩ := h
      have kept : Spelled (b :: Block.substitute patches bs) :=
        ⟨hvalid, hfits.substitute patches hbs, ih hbs⟩
      cases b with
      | name w =>
          rw [Block.substitute]
          split
          · exact kept
          · obtain stays | ⟨p, patched⟩ := patches.blocks_cases w
            · rwa [stays]
            · rw [patched]
              exact p.spelled _ (ih hbs) kept.2.1
      | blank c => exact kept
      | number cs x => exact kept
      | quoted q body s => exact kept
      | sign cs s => exact kept

/-- Substitution goes part by part, unless a name at the seam is called. -/
theorem Token.substitute_append {us : List Token} (hus : us.head? ≠ some (.symbol .openParen))
    (ts : List Token) : Token.substitute patches (ts ++ us) =
      Token.substitute patches ts ++ Token.substitute patches us := by
  induction ts with
  | nil => rfl
  | cons t ts ih =>
      cases t with
      | name s =>
          have head : (ts ++ us).head? = some (.symbol .openParen) ↔
              ts.head? = some (.symbol .openParen) := by
            cases ts with
            | nil => simpa using hus
            | cons t ts => rfl
          rw [List.cons_append, Token.substitute, Token.substitute, ih, List.append_assoc]
          simp only [head]
      | number x => exact congrArg (.number x :: ·) ih
      | text s => exact congrArg (.text s :: ·) ih
      | symbol s => exact congrArg (.symbol s :: ·) ih

/-- So it does around a symbol other than an opening parenthesis. -/
theorem Token.substitute_symbol {s : Symbol} (hs : s ≠ .openParen) (ts us : List Token) :
    Token.substitute patches (ts ++ .symbol s :: us) =
      Token.substitute patches ts ++ .symbol s :: Token.substitute patches us :=
  Token.substitute_append patches (by simpa using hs) ts

@[simp] theorem Token.substitute_cons_symbol (s : Symbol) (ts : List Token) :
    Token.substitute patches (.symbol s :: ts) = .symbol s :: Token.substitute patches ts := rfl

/-- So it does around the commas of a list. -/
theorem Token.substitute_joined (segments : List (List Token)) :
    Token.substitute patches (joined segments) =
      joined (segments.map (Token.substitute patches)) := by
  induction segments with
  | nil => rfl
  | cons ts segments ih =>
      cases segments with
      | nil => simp
      | cons us segments =>
          rw [joined_cons_cons, Token.substitute_symbol patches (by decide), ih]
          simp only [List.map_cons, joined_cons_cons]

/-- So it does between brackets. -/
theorem Token.substitute_brackets (s : Symbol) {t : Symbol} (ht : t ≠ .openParen)
    (segments : List (List Token)) :
    Token.substitute patches (.symbol s :: (joined segments ++ [.symbol t])) =
      .symbol s :: (joined (segments.map (Token.substitute patches)) ++ [.symbol t]) := by
  rw [Token.substitute_cons_symbol, Token.substitute_symbol patches ht, Token.substitute_joined]
  rfl

end

/-- No unquoted key of an object has a value in the table. -/
def KeysUnbound (m : Table Value) (ts : List Token) : Prop :=
  ∀ opening ∈ [Symbol.openBrace, .comma], ∀ k,
    [.symbol opening, .name k, .symbol .colon] <:+: ts → m.get? k = none

/-- What holds of the keys among tokens holds of a part of them. -/
theorem KeysUnbound.mono {m : Table Value} {ts us : List Token} (h : KeysUnbound m ts)
    (sub : us <:+: ts) : KeysUnbound m us :=
  fun opening hopening k hk => h opening hopening k (hk.trans sub)

/-- Every segment stands behind a comma or the bracket that opens. -/
theorem infix_joined {segments : List (List Token)} {ts : List Token} (h : ts ∈ segments)
    (s : Symbol) (more : List Token) : ∃ opening ∈ [s, .comma],
      .symbol opening :: ts <:+: .symbol s :: (joined segments ++ more) := by
  cases segments with
  | nil => cases h
  | cons us rest =>
      rcases List.mem_cons.mp h with rfl | h
      · refine ⟨s, by simp, [], rest.flatMap (.symbol .comma :: ·) ++ more, ?_⟩
        simp [joined]
      · obtain ⟨front, back, rfl⟩ := List.append_of_mem h
        refine ⟨.comma, by simp, .symbol s :: us ++ front.flatMap (.symbol .comma :: ·),
          back.flatMap (.symbol .comma :: ·) ++ more, ?_⟩
        simp [joined]

/-- So it does of each segment of a list. -/
theorem KeysUnbound.segment {m : Table Value} {s : Symbol} {segments : List (List Token)}
    {more : List Token} (h : KeysUnbound m (.symbol s :: (joined segments ++ more)))
    {ts : List Token} (hts : ts ∈ segments) : KeysUnbound m ts := by
  obtain ⟨opening, -, sub⟩ := infix_joined hts s more
  exact h.mono ((List.infix_cons (List.infix_refl ts)).trans sub)

namespace Expr

/-- One tree evaluates without a scope as the other does in the scope `m`. -/
def Resolves (m : Table Value) (e e' : Expr) : Prop :=
  ∀ call, e'.evaluate call .empty = e.evaluate call m

section

variable {m : Table Value} {ι : Type} {f g : ι → Expr}

/-- Items evaluate alike if each resolves to the other. -/
theorem evaluateItems_resolves {as : List ι} (h : ∀ a ∈ as, Resolves m (f a) (g a))
    (call : Caller) (out : List Value) :
    evaluateItems call .empty out (as.map g) = evaluateItems call m out (as.map f) := by
  induction as generalizing out with
  | nil => rfl
  | cons a as ih =>
      have rest := ih fun b hb => h b (List.mem_cons_of_mem _ hb)
      simp only [List.map_cons, evaluateItems, h a List.mem_cons_self call, rest]

/-- So do fields. -/
theorem evaluateFields_resolves {as : List ι} (key : ι → String)
    (h : ∀ a ∈ as, Resolves m (f a) (g a)) (call : Caller) (out : Entries Value) :
    evaluateFields call .empty out (as.map fun a => (key a, g a)) =
      evaluateFields call m out (as.map fun a => (key a, f a)) := by
  induction as generalizing out with
  | nil => rfl
  | cons a as ih =>
      have rest := ih fun b hb => h b (List.mem_cons_of_mem _ hb)
      simp only [List.map_cons, evaluateFields, h a List.mem_cons_self call, rest]

/-- So do the arguments of a choice. -/
theorem evaluateChoice_resolves {as : List ι} (h : ∀ a ∈ as, Resolves m (f a) (g a))
    (call : Caller) :
    evaluateChoice call .empty (as.map g) = evaluateChoice call m (as.map f) := by
  match as, h with
  | [], _ => rfl
  | [c], h => simp only [List.map_cons, List.map_nil, evaluateChoice, h c (by simp) call]
  | [c, y], h =>
    simp only [List.map_cons, List.map_nil, evaluateChoice, h c (by simp) call,
      h y (by simp) call]
  | c :: y :: n :: _, h =>
    simp only [List.map_cons, evaluateChoice, h c (by simp) call, h y (by simp) call,
      h n (by simp) call]

end

/-- What an infix operator builds resolves with its operands. -/
theorem Resolves.binary {m : Table Value} {k : Nat} {s : Symbol} {build : Expr → Expr → Expr}
    (hop : infixOp? k s = some build) {l l' r r' : Expr} (hl : Resolves m l l')
    (hr : Resolves m r r') : Resolves m (build l r) (build l' r') := by
  intro call
  obtain rfl | rfl | ⟨op, rfl⟩ := build_of_infixOp? hop <;>
    simp only [evaluate, hl call, hr call]

end Expr

/-- Lists can be paired off where each member has something to go with. -/
theorem exists_pairs {α β : Type} {r : α → β → Prop} {as : List α} (h : ∀ a ∈ as, ∃ b, r a b) :
    ∃ ps : List (α × β), ps.map Prod.fst = as ∧ ∀ p ∈ ps, r p.1 p.2 := by
  have each : ∀ a ∈ as, ∃ p : {p : α × β // r p.1 p.2}, p.1.1 = a := by
    intro a ha
    obtain ⟨b, hb⟩ := h a ha
    exact ⟨⟨(a, b), hb⟩, rfl⟩
  obtain ⟨ps, hps⟩ := exists_map_eq each
  refine ⟨ps.map (·.1), by rw [List.map_map]; exact hps, ?_⟩
  intro p hp
  obtain ⟨q, -, rfl⟩ := List.mem_map.mp hp
  exact q.2

/-- The reserved words are those that stand for a value. -/
theorem isReserved_eq_isSome (s : String) : isReserved s = (reservedValue? s).isSome := by
  rw [Bool.eq_iff_iff]
  simp only [isReserved, reservedWords, List.contains_eq_mem, List.mem_cons, List.not_mem_nil,
    or_false, decide_eq_true_eq]
  unfold reservedValue?
  split_ifs with _ _ nothing <;> simp_all
  -- two words stand for nothing
  rcases nothing with rfl | rfl <;> simp

section

variable {m : Table Value} (patches : Patches m)

/-- A name resolves to what it is replaced by. -/
theorem Patches.derives_tokens (s : String) :
    ∃ e', Derives .primary (patches.tokens s) e' ∧ Expr.Resolves m (nameExpr s) e' := by
  obtain ⟨stays, free⟩ | ⟨free, p, value, patched⟩ := patches.tokens_cases s
  · rw [stays]
    refine ⟨_, .name s, fun call => ?_⟩
    unfold nameExpr
    split
    · rfl
    · rename_i plain
      have unreserved : isReserved s = false := by
        rw [isReserved_eq_isSome, plain, Option.isSome_none]
      rw [Expr.evaluate, Expr.evaluate, free unreserved]
      rfl
  · rw [patched]
    refine ⟨p.tree, p.derived, fun call => ?_⟩
    have plain : reservedValue? s = none := by
      rwa [isReserved_eq_isSome, Option.isSome_eq_false_iff, Option.isNone_iff_eq_none] at free
    rw [nameExpr, plain, Expr.evaluate, value,
      Expr.evaluate_of_asLiteral? call .empty p.tree p.value p.plain]

/-- A name that is not bound stays. -/
theorem Patches.tokens_of_unbound {s : String} (h : m.get? s = none) :
    patches.tokens s = [.name s] := by
  obtain ⟨stays, -⟩ | ⟨-, p, value, -⟩ := patches.tokens_cases s
  · exact stays
  · rw [h] at value
    cases value

/-- By substitution, tokens of the tree `e` become a phrase that resolves it. -/
def Patches.Carries (p : Phrase) (ts : List Token) (e : Expr) : Prop :=
  ∃ e', Derives p (Token.substitute patches ts) e' ∧ Expr.Resolves m e e'

/-- The item that another becomes whose tokens carry over to a tree. -/
def ItemPhrase.substitute (q : ItemPhrase × Expr) : ItemPhrase :=
  ⟨Token.substitute patches q.1.tokens, q.2⟩

/-- The field that another becomes, with the key that it had. -/
def FieldPhrase.substitute (q : FieldPhrase × Expr) : FieldPhrase :=
  ⟨q.1.key, q.1.name, Token.substitute patches q.1.tokens, q.2⟩

/-- The items of a list carry over together. -/
theorem Patches.exists_items {items : List ItemPhrase}
    (h : ∀ i ∈ items, patches.Carries .conditional i.tokens i.tree) :
    ∃ ps : List (ItemPhrase × Expr), ps.map Prod.fst = items ∧
      (∀ i ∈ ps.map (ItemPhrase.substitute patches), Derives .conditional i.tokens i.tree) ∧
      ∀ q ∈ ps, Expr.Resolves m q.1.tree q.2 := by
  obtain ⟨ps, eq, hps⟩ := exists_pairs h
  refine ⟨ps, eq, ?_, fun q hq => (hps q hq).2⟩
  intro i hi
  obtain ⟨q, hq, rfl⟩ := List.mem_map.mp hi
  exact (hps q hq).1

/-- Substitution in a list goes item by item. -/
theorem Token.substitute_items (s : Symbol) {t : Symbol} (ht : t ≠ .openParen)
    (ps : List (ItemPhrase × Expr)) :
    Token.substitute patches
        (.symbol s :: (joined ((ps.map Prod.fst).map ItemPhrase.tokens) ++ [.symbol t])) =
      .symbol s :: (joined ((ps.map (ItemPhrase.substitute patches)).map ItemPhrase.tokens) ++
        [.symbol t]) := by
  rw [Token.substitute_brackets patches s ht]
  simp only [List.map_map, Function.comp_def, ItemPhrase.substitute]

/-- A call carries substitution if its arguments do. -/
theorem Patches.Carries.call (s : String) {items : List ItemPhrase}
    (h : ∀ i ∈ items, patches.Carries .conditional i.tokens i.tree) :
    patches.Carries .primary
      (.name s :: .symbol .openParen ::
        (joined (items.map ItemPhrase.tokens) ++ [.symbol .closeParen]))
      (.call s (items.map ItemPhrase.tree)) := by
  obtain ⟨ps, rfl, derived, resolves⟩ := patches.exists_items h
  refine ⟨.call s ((ps.map (ItemPhrase.substitute patches)).map ItemPhrase.tree), ?_,
    fun caller => ?_⟩
  · rw [Token.substitute, List.head?_cons, if_pos rfl,
      Token.substitute_items patches _ (by decide)]
    exact .call s derived
  · have values := Expr.evaluateItems_resolves resolves caller []
    have choice := Expr.evaluateChoice_resolves resolves caller
    simp only [Expr.evaluate, List.map_map, Function.comp_def,
      ItemPhrase.substitute] at values choice ⊢
    rw [values, choice]

/-- So does an array if its items do. -/
theorem Patches.Carries.array {items : List ItemPhrase}
    (h : ∀ i ∈ items, patches.Carries .conditional i.tokens i.tree) :
    patches.Carries .primary
      (.symbol .openBracket :: (joined (items.map ItemPhrase.tokens) ++ [.symbol .closeBracket]))
      (.array (items.map ItemPhrase.tree)) := by
  obtain ⟨ps, rfl, derived, resolves⟩ := patches.exists_items h
  refine ⟨.array ((ps.map (ItemPhrase.substitute patches)).map ItemPhrase.tree), ?_,
    fun caller => ?_⟩
  · rw [Token.substitute_items patches _ (by decide)]
    exact .array derived
  · have values := Expr.evaluateItems_resolves resolves caller []
    simp only [Expr.evaluate, List.map_map, Function.comp_def, ItemPhrase.substitute] at values ⊢
    rw [values]

/-- A key has no value, so it is left alone. -/
theorem Token.substitute_whole {segments : List (List Token)} {more : List Token}
    (keys : KeysUnbound m (.symbol .openBrace :: (joined segments ++ more))) {f : FieldPhrase}
    (hf : f.whole ∈ segments) :
    Token.substitute patches f.whole =
      f.key :: .symbol .colon :: Token.substitute patches f.tokens := by
  obtain ⟨opening, hopening, sub⟩ := infix_joined hf .openBrace more
  rw [FieldPhrase.whole] at sub ⊢
  cases hkey : f.key with
  | name k =>
      have unbound : m.get? k = none := by
        refine keys opening hopening k (List.IsInfix.trans ?_ sub)
        rw [hkey]
        exact ⟨[], f.tokens, rfl⟩
      rw [Token.substitute, if_neg (by simp), patches.tokens_of_unbound unbound]
      rfl
  | number x => rfl
  | text s => rfl
  | symbol s => rfl

/-- So does an object if its fields do, and no key of it is bound. -/
theorem Patches.Carries.object {fields : List FieldPhrase}
    (named : ∀ f ∈ fields, keyOf? f.key = some f.name)
    (keys : KeysUnbound m (.symbol .openBrace ::
      (joined (fields.map FieldPhrase.whole) ++ [.symbol .closeBrace])))
    (h : ∀ f ∈ fields, patches.Carries .conditional f.tokens f.tree) :
    patches.Carries .primary
      (.symbol .openBrace :: (joined (fields.map FieldPhrase.whole) ++ [.symbol .closeBrace]))
      (.object (fields.map FieldPhrase.field)) := by
  obtain ⟨ps, rfl, hps⟩ := exists_pairs h
  have resolves : ∀ q ∈ ps, Expr.Resolves m q.1.tree q.2 := fun q hq => (hps q hq).2
  have named' : ∀ f ∈ ps.map (FieldPhrase.substitute patches), keyOf? f.key = some f.name := by
    intro f hf
    obtain ⟨q, hq, rfl⟩ := List.mem_map.mp hf
    exact named q.1 (List.mem_map_of_mem hq)
  have derived : ∀ f ∈ ps.map (FieldPhrase.substitute patches),
      Derives .conditional f.tokens f.tree := by
    intro f hf
    obtain ⟨q, hq, rfl⟩ := List.mem_map.mp hf
    exact (hps q hq).1
  refine ⟨.object ((ps.map (FieldPhrase.substitute patches)).map FieldPhrase.field), ?_,
    fun caller => ?_⟩
  · have segments : ((ps.map Prod.fst).map FieldPhrase.whole).map (Token.substitute patches) =
        (ps.map (FieldPhrase.substitute patches)).map FieldPhrase.whole := by
      rw [List.map_map, List.map_map, List.map_map]
      exact List.map_congr_left fun q hq => Token.substitute_whole patches keys
        (List.mem_map_of_mem (List.mem_map_of_mem hq))
    rw [Token.substitute_brackets patches _ (by decide), segments]
    exact .object named' derived
  · have values := Expr.evaluateFields_resolves (fun q : FieldPhrase × Expr => q.1.name) resolves
      caller []
    simp only [Expr.evaluate, List.map_map, Function.comp_def, FieldPhrase.field,
      FieldPhrase.substitute] at values ⊢
    rw [values]

/-- A substituted formula is derived, and its tree resolves the first one. -/
theorem Derives.substitute {p : Phrase} {ts : List Token} {e : Expr} (h : Derives p ts e)
    (keys : KeysUnbound m ts) : patches.Carries p ts e := by
  induction h with
  | plain _ ih =>
      obtain ⟨e', derived, same⟩ := ih keys
      exact ⟨e', .plain derived, same⟩
  | @choice ts us vs c y n _ _ _ ihc ihy ihn =>
      obtain ⟨c', dc, hc⟩ := ihc (keys.mono ⟨[], _, rfl⟩)
      obtain ⟨y', dy, hy⟩ := ihy (keys.mono ⟨ts ++ [.symbol .question], _, by simp; rfl⟩)
      obtain ⟨n', dn, hn⟩ := ihn (keys.mono
        ⟨ts ++ .symbol .question :: (us ++ [.symbol .colon]), [], by simp⟩)
      refine ⟨.conditional c' y' n', ?_, fun call => ?_⟩
      · rw [Token.substitute_symbol patches (by decide),
          Token.substitute_symbol patches (by decide)]
        exact .choice dc dy dn
      · simp only [Expr.evaluate, hc call, hy call, hn call]
  | tighter hk _ ih =>
      obtain ⟨e', derived, same⟩ := ih keys
      exact ⟨e', .tighter hk derived, same⟩
  | @binary k s build ts us l r hop _ _ ihl ihr =>
      obtain ⟨l', dl, hl⟩ := ihl (keys.mono ⟨[], _, rfl⟩)
      obtain ⟨r', dr, hr⟩ := ihr (keys.mono ⟨ts ++ [.symbol s], [], by simp⟩)
      refine ⟨build l' r', ?_, .binary hop hl hr⟩
      rw [Token.substitute_symbol patches (ne_of_infixOp? hop (by decide))]
      exact .binary hop dl dr
  | top _ ih =>
      obtain ⟨e', derived, same⟩ := ih keys
      exact ⟨e', .top derived, same⟩
  | @sign s op ts e hop _ ih =>
      obtain ⟨e', derived, same⟩ := ih (keys.mono ⟨[.symbol s], [], by simp⟩)
      refine ⟨.unary op e', .sign hop derived, fun call => ?_⟩
      simp only [Expr.evaluate, same call]
  | base _ ih =>
      obtain ⟨e', derived, same⟩ := ih keys
      exact ⟨e', .base derived, same⟩
  | number x => exact ⟨_, .number x, fun call => rfl⟩
  | text s => exact ⟨_, .text s, fun call => rfl⟩
  | name s =>
      obtain ⟨e', derived, same⟩ := patches.derives_tokens s
      refine ⟨e', ?_, same⟩
      simpa [Token.substitute] using derived
  | @call s items _ ih =>
      have inner : KeysUnbound m (.symbol .openParen ::
          (joined (items.map ItemPhrase.tokens) ++ [.symbol .closeParen])) :=
        keys.mono (List.infix_cons (List.infix_refl _))
      exact .call patches s fun i hi => ih i hi (inner.segment (List.mem_map_of_mem hi))
  | @paren ts e _ ih =>
      obtain ⟨e', derived, same⟩ := ih (keys.mono ⟨[.symbol .openParen], [.symbol .closeParen],
        by simp⟩)
      refine ⟨e', ?_, same⟩
      rw [Token.substitute_cons_symbol, Token.substitute_symbol patches (by decide)]
      exact .paren derived
  | @array items _ ih =>
      exact .array patches fun i hi => ih i hi (keys.segment (List.mem_map_of_mem hi))
  | @object fields named _ ih =>
      refine .object patches named keys fun f hf => ih f hf ?_
      exact (keys.segment (List.mem_map_of_mem hf)).mono
        (List.infix_cons (List.infix_cons (List.infix_refl f.tokens)))

end

/-- **Substitution is hygienic.**  A formula is still one when the references
in its text are replaced by the literals of their values, and evaluated
without a scope it comes to what the first one comes to in a scope of these
values: the same outcome, from the same source of random numbers to the same.
The values are legible, and none belongs to an unquoted key of an object. -/
theorem Expr.parse_substituteTable {formula : String} {e : Expr}
    (parsed : Expr.parse formula = .ok e) {m : Table Value}
    (legible : ∀ name v, m.get? name = some v → v.Legible)
    (keys : KeysUnbound m (Lexed.ofText formula.toList).tokens) :
    ∃ e', Expr.parse (String.ofList ((Outline.ofText formula.toList).substituteTable m).1) =
        .ok e' ∧
      ∀ (s : Setting) (r : RandomSource),
        Run.from (s.evaluate .empty e') r = Run.from (s.evaluate m e) r := by
  obtain ⟨patches⟩ := Patches.exists legible
  obtain ⟨bs, spelled, text_eq, tokens⟩ := Expr.ofChars_eq_ok_iff.mp parsed
  rw [← text_eq, spelled.lexed.1] at keys
  obtain ⟨body, ends, derived⟩ := Parser.parseTokens_eq_ok_iff.mp tokens
  have inner : KeysUnbound m body := by
    rcases ends with ends | ends
    · rwa [ends] at keys
    · exact keys.mono (by rw [ends]; exact ⟨[], [.symbol .semicolon], rfl⟩)
  obtain ⟨e', derived', same⟩ := derived.substitute patches inner
  refine ⟨e', ?_, fun s r => ?_⟩
  · have text : ((Outline.ofText formula.toList).substituteTable m).1 =
        Block.textOf (Block.substitute patches bs) := by
      rw [Outline.fst_substituteTable, ← text_eq, spelled.outline,
        Block.textWith_outline patches]
    rw [Expr.parse, String.toList_ofList, text]
    refine Expr.ofChars_eq_ok_iff.mpr ⟨_, spelled.substitute patches, rfl, ?_⟩
    refine Parser.parseTokens_eq_ok_iff.mpr ⟨_, ?_, derived'⟩
    rw [Block.tokens_substitute]
    rcases ends with ends | ends
    · exact .inl (by rw [ends])
    · refine .inr ?_
      rw [ends, Token.substitute_symbol patches (by decide)]
      rfl
  · rw [Setting.evaluate, Setting.evaluate, same]

/-- Only the keys of the table need to be looked for. -/
theorem keysUnbound_of_keys {m : Table Value} {ts : List Token}
    (h : ∀ k ∈ m.keys, ∀ opening ∈ [Symbol.openBrace, .comma],
      ¬ [.symbol opening, .name k, .symbol .colon] <:+: ts) : KeysUnbound m ts := by
  intro opening hopening k sub
  cases hv : m.get? k with
  | none => rfl
  | some v =>
      have mem : (k, v) ∈ m.entries := (Table.mem_entries_iff m k v).mpr hv
      exact absurd sub (h k (List.mem_map_of_mem mem) opening hopening)

/-- A depth below the surface and a title with a quote in it. -/
def survey : Table Value :=
  .ofList [("depth", .number (-3)), ("title", .text "the \"old\" well")]

/-- An object with two unquoted keys and two references. -/
def surveyNote : String := "\x7blabel: title, size: 2 - depth\x7d"

/-- The values of the survey can be written as literals. -/
theorem legible_survey (name : String) (v : Value) (h : survey.get? name = some v) :
    v.Legible := by
  have mem : (name, v) ∈ survey.entries := (Table.mem_entries_iff survey name v).mpr h
  have entries : survey.entries =
      [("depth", .number (-3)), ("title", .text "the \"old\" well")] := rfl
  rw [entries] at mem
  simp only [List.mem_cons, Prod.mk.injEq, List.not_mem_nil, or_false] at mem
  rcases mem with ⟨-, rfl⟩ | ⟨-, rfl⟩
  · exact .number (x := -3) (by decide +kernel) (by decide +kernel)
  · exact .text _

/-- A negative number and a text with quotes, in an object with two keys. -/
theorem parse_substituteTable_survey : ∃ e e', Expr.parse surveyNote = .ok e ∧
    Expr.parse (String.ofList ((Outline.ofText surveyNote.toList).substituteTable survey).1) =
      .ok e' ∧
    ∀ (s : Setting) (r : RandomSource),
      Run.from (s.evaluate .empty e') r = Run.from (s.evaluate survey e) r := by
  have accepted : (Expr.parse surveyNote).isOk = true := by decide +kernel
  cases parsed : Expr.parse surveyNote with
  | error f => rw [parsed] at accepted; cases accepted
  | ok e =>
      have keys : KeysUnbound survey (Lexed.ofText surveyNote.toList).tokens :=
        keysUnbound_of_keys (by decide +kernel)
      obtain ⟨e', parsed', same⟩ := Expr.parse_substituteTable parsed legible_survey keys
      exact ⟨e, e', rfl, parsed', same⟩

example : ((Outline.ofText surveyNote.toList).substituteTable survey).1 =
    "\x7blabel: \"the \\\"old\\\" well\", size: 2 - (-3)\x7d".toList := by decide +kernel

/-- A loss that is a NaN with a sign. -/
def losses : Table Value := .ofList [("loss", .number (-.of Number.nan))]

/-- A list with the loss in it, sorted. -/
def sortedLosses : String := "SORT([1, loss])"

/-- In the scope of the loss it comes before the number; the literal of it has no
sign, so once it is put into the text it comes behind.  Neither is a zero, and
there are no keys. -/
theorem evaluate_sortedLosses : ∃ e e', Expr.parse sortedLosses = .ok e ∧
    (∀ entry ∈ losses.entries, ∀ x ∈ entry.2.numbers, x.float ≠ -0.0) ∧
    KeysUnbound losses (Lexed.ofText sortedLosses.toList).tokens ∧
    Expr.parse (String.ofList ((Outline.ofText sortedLosses.toList).substituteTable losses).1) =
      .ok e' ∧
    let s : Setting := ⟨.builtins, some 0, .still⟩
    let r : RandomSource := .ofSeed none
    (Run.from (s.evaluate .empty e') r).1.toOption.map Value.toText = some "1,NaN" ∧
      (Run.from (s.evaluate losses e) r).1.toOption.map Value.toText = some "NaN,1" := by
  let s : Setting := ⟨.builtins, some 0, .still⟩
  have outcome : ∀ formula scope shown, ((Expr.parse formula).toOption.any fun e =>
      (Run.from (s.evaluate scope e) (.ofSeed none)).1.toOption.map Value.toText == shown) = true →
      ∃ e, Expr.parse formula = .ok e ∧
        (Run.from (s.evaluate scope e) (.ofSeed none)).1.toOption.map Value.toText = shown := by
    intro formula scope shown checked
    obtain ⟨e, parsed, same⟩ := exists_ok_of_any checked
    exact ⟨e, parsed, beq_iff_eq.mp same⟩
  obtain ⟨e, parsed, bound⟩ := outcome sortedLosses losses (some "NaN,1") (by decide +kernel)
  obtain ⟨e', parsed', substituted⟩ := outcome
    (String.ofList ((Outline.ofText sortedLosses.toList).substituteTable losses).1) .empty
    (some "1,NaN") (by decide +kernel)
  exact ⟨e, e', parsed, by decide +kernel, keysUnbound_of_keys (by decide +kernel), parsed',
    substituted, bound⟩

end FormulaSheet
