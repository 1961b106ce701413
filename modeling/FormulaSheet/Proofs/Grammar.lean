import Mathlib.Data.List.Chain
import FormulaSheet.Expr.Parser

/-!
# The grammar of formulas

`Parser.parseTokens` is a recursive descent with an allowance of steps.  Here
is the grammar that it recognizes, as a relation between tokens and trees in
which neither the order of descent nor the allowance occurs.

* `Derives` — the grammar; every infix level associates to the left by its
  left recursion.
* `Parser.sound` — what the descent makes of tokens is derived from those that
  it took.
* `Parser.complete` — a derivation is found, whatever tokens follow that do
  not go on with it.
* `Parser.parseTokens_eq_ok_iff` — the formulas are the derived ones, perhaps
  with a semicolon.
-/

namespace FormulaSheet

/-- The phrases of the grammar, from loosest to tightest. -/
inductive Phrase where
  | conditional
  | level (k : Nat)
  | signed
  | primary

/-- Lists of tokens with a comma between them. -/
def joined : List (List Token) → List Token
  | [] => []
  | ts :: more => ts ++ more.flatMap (.symbol .comma :: ·)

/-- The tokens of an expression among others, and its tree. -/
structure ItemPhrase where
  tokens : List Token
  tree : Expr

/-- The tokens of a field and what they stand for. -/
structure FieldPhrase where
  key : Token
  name : String
  tokens : List Token
  tree : Expr

/-- The key, the colon and the tokens of the value. -/
def FieldPhrase.whole (f : FieldPhrase) : List Token := f.key :: .symbol .colon :: f.tokens

/-- The field of an object tree. -/
def FieldPhrase.field (f : FieldPhrase) : String × Expr := (f.name, f.tree)

/-- `Derives p ts e`: the tokens `ts` are a phrase `p` with the tree `e`. -/
inductive Derives : Phrase → List Token → Expr → Prop
  | plain {ts : List Token} {e : Expr} : Derives (.level 0) ts e → Derives .conditional ts e
  | choice {ts us vs : List Token} {c y n : Expr} : Derives (.level 0) ts c →
      Derives .conditional us y → Derives .conditional vs n →
      Derives .conditional (ts ++ .symbol .question :: (us ++ .symbol .colon :: vs))
        (.conditional c y n)
  | tighter {k : Nat} {ts : List Token} {e : Expr} : k < infixLevels →
      Derives (.level (k + 1)) ts e → Derives (.level k) ts e
  | binary {k : Nat} {s : Symbol} {build : Expr → Expr → Expr} {ts us : List Token}
      {l r : Expr} : infixOp? k s = some build → Derives (.level k) ts l →
      Derives (.level (k + 1)) us r → Derives (.level k) (ts ++ .symbol s :: us) (build l r)
  | top {ts : List Token} {e : Expr} : Derives .signed ts e → Derives (.level infixLevels) ts e
  | sign {s : Symbol} {op : UnaryOp} {ts : List Token} {e : Expr} : prefixOp? s = some op →
      Derives .signed ts e → Derives .signed (.symbol s :: ts) (.unary op e)
  | base {ts : List Token} {e : Expr} : Derives .primary ts e → Derives .signed ts e
  | number (x : Float) : Derives .primary [.number x] (.literal (.number (.of x)))
  | text (s : String) : Derives .primary [.text s] (.literal (.text s))
  | name (s : String) : Derives .primary [.name s] (nameExpr s)
  | call (s : String) {items : List ItemPhrase} :
      (∀ i ∈ items, Derives .conditional i.tokens i.tree) →
      Derives .primary
        (.name s :: .symbol .openParen ::
          (joined (items.map ItemPhrase.tokens) ++ [.symbol .closeParen]))
        (.call s (items.map ItemPhrase.tree))
  | paren {ts : List Token} {e : Expr} : Derives .conditional ts e →
      Derives .primary (.symbol .openParen :: (ts ++ [.symbol .closeParen])) e
  | array {items : List ItemPhrase} :
      (∀ i ∈ items, Derives .conditional i.tokens i.tree) →
      Derives .primary
        (.symbol .openBracket ::
          (joined (items.map ItemPhrase.tokens) ++ [.symbol .closeBracket]))
        (.array (items.map ItemPhrase.tree))
  | object {fields : List FieldPhrase} : (∀ f ∈ fields, keyOf? f.key = some f.name) →
      (∀ f ∈ fields, Derives .conditional f.tokens f.tree) →
      Derives .primary
        (.symbol .openBrace :: (joined (fields.map FieldPhrase.whole) ++ [.symbol .closeBrace]))
        (.object (fields.map FieldPhrase.field))

@[simp] theorem joined_nil : joined [] = [] := rfl

@[simp] theorem joined_singleton (ts : List Token) : joined [ts] = ts := by
  simp [joined]

/-- A comma stands between the first segment and the others. -/
theorem joined_cons_cons (ts us : List Token) (more : List (List Token)) :
    joined (ts :: us :: more) = ts ++ .symbol .comma :: joined (us :: more) := by
  simp [joined]

/-- No phrase is empty. -/
theorem Derives.ne_nil {p : Phrase} {ts : List Token} {e : Expr} (h : Derives p ts e) :
    ts ≠ [] := by
  induction h with
  | plain _ ih => exact ih
  | choice _ _ _ ih _ _ => simp
  | tighter _ _ ih => exact ih
  | binary _ _ _ ih _ => simp
  | top _ ih => exact ih
  | base _ ih => exact ih
  | _ => simp

/-- A phrase may begin with a sign operator or a bracket that opens. -/
def Symbol.BeginsPhrase (s : Symbol) : Prop :=
  prefixOp? s ≠ none ∨ s ∈ [Symbol.openParen, .openBracket, .openBrace]

instance (s : Symbol) : Decidable s.BeginsPhrase :=
  inferInstanceAs (Decidable (_ ∨ _))

/-- No phrase begins with another symbol. -/
theorem Derives.head_symbol {p : Phrase} {ts : List Token} {e : Expr} (h : Derives p ts e)
    {s : Symbol} {rest : List Token} (eq : ts = .symbol s :: rest) : s.BeginsPhrase := by
  induction h generalizing rest with
  | plain _ ih => exact ih eq
  | choice hc _ _ ih _ _ =>
      obtain ⟨t, more, rfl⟩ := List.exists_cons_of_ne_nil hc.ne_nil
      obtain ⟨rfl, -⟩ := List.cons.inj eq
      exact ih rfl
  | tighter _ _ ih => exact ih eq
  | binary _ hl _ ih _ =>
      obtain ⟨t, more, rfl⟩ := List.exists_cons_of_ne_nil hl.ne_nil
      obtain ⟨rfl, -⟩ := List.cons.inj eq
      exact ih rfl
  | top _ ih => exact ih eq
  | sign hop =>
      cases eq
      exact .inl (by simp [hop])
  | base _ ih => exact ih eq
  | paren | array | object =>
      cases eq
      exact .inr (by decide)
  | _ => cases eq

/-- A phrase of one kind is one of every looser kind. -/
theorem Derives.conditional {ts : List Token} {e : Expr} (h : Derives .signed ts e) :
    Derives .conditional ts e := by
  have level : ∀ d k, k + d = infixLevels → Derives (.level k) ts e := by
    intro d
    induction d with
    | zero =>
        intro k eq
        subst eq
        exact .top h
    | succ d ih => exact fun k hk => .tighter (by omega) (ih (k + 1) (by omega))
  exact .plain (level infixLevels 0 (Nat.zero_add _))

/-- Whether one of two tokens is a symbol.  Names, numbers and texts stand
apart in a formula. -/
def Apart (t u : Token) : Prop := ∃ s, t = .symbol s ∨ u = .symbol s

/-- No two tokens other than symbols are next to each other. -/
abbrev Separated (ts : List Token) : Prop := ts.IsChain Apart

/-- A symbol before separated tokens separates. -/
theorem Separated.symbol_cons {ts : List Token} (h : Separated ts) (s : Symbol) :
    Separated (.symbol s :: ts) := by
  cases ts with
  | nil => exact .singleton _
  | cons t ts => exact .cons_cons ⟨s, .inl rfl⟩ h

/-- A symbol between them does too. -/
theorem Separated.append_symbol {ts us : List Token} (hts : Separated ts) (hus : Separated us)
    (s : Symbol) : Separated (ts ++ .symbol s :: us) := by
  refine hts.append (hus.symbol_cons s) ?_
  intro t _ u hu
  cases hu
  exact ⟨s, .inr rfl⟩

/-- So do the commas between separated segments. -/
theorem separated_joined {segments : List (List Token)} (h : ∀ ts ∈ segments, Separated ts) :
    Separated (joined segments) := by
  induction segments with
  | nil => exact .nil
  | cons ts segments ih =>
      have hts := h ts List.mem_cons_self
      cases segments with
      | nil => rwa [joined_singleton]
      | cons us segments =>
          rw [joined_cons_cons]
          exact hts.append_symbol (ih fun vs hvs => h vs (List.mem_cons_of_mem _ hvs)) .comma

/-- No phrase has two operands side by side. -/
theorem Derives.separated {p : Phrase} {ts : List Token} {e : Expr} (h : Derives p ts e) :
    Separated ts := by
  have items : ∀ {items : List ItemPhrase}, (∀ i ∈ items, Separated i.tokens) →
      Separated (joined (items.map ItemPhrase.tokens)) := by
    intro items h
    refine separated_joined fun ts hts => ?_
    obtain ⟨i, hi, rfl⟩ := List.mem_map.mp hts
    exact h i hi
  induction h with
  | plain _ ih => exact ih
  | choice _ _ _ ihc ihy ihn => exact ihc.append_symbol (ihy.append_symbol ihn _) _
  | tighter _ _ ih => exact ih
  | binary _ _ _ ihl ihr => exact ihl.append_symbol ihr _
  | top _ ih => exact ih
  | sign _ _ ih => exact ih.symbol_cons _
  | base _ ih => exact ih
  | number x => exact .singleton _
  | text s => exact .singleton _
  | name s => exact .singleton _
  | call s _ ih =>
      exact .cons_cons ⟨_, .inr rfl⟩ (((items ih).append_symbol .nil _).symbol_cons _)
  | paren _ ih => exact (ih.append_symbol .nil _).symbol_cons _
  | array _ ih => exact ((items ih).append_symbol .nil _).symbol_cons _
  | object _ _ ih =>
      refine ((separated_joined fun ts hts => ?_).append_symbol .nil _).symbol_cons _
      obtain ⟨f, hf, rfl⟩ := List.mem_map.mp hts
      exact .cons_cons ⟨_, .inr rfl⟩ ((ih f hf).symbol_cons _)

/-- The level of a symbol that is an infix operator. -/
def Symbol.infixLevel : Symbol → Nat
  | either => 0
  | both => 1
  | equal | notEqual | identical | notIdentical => 2
  | less | lessEqual | greater | greaterEqual => 3
  | plus | minus => 4
  | _ => 5

/-- The symbols that are no operators: brackets, and what stands between phrases. -/
def punctuation : List Symbol :=
  [.openParen, .closeParen, .openBracket, .closeBracket, .openBrace, .closeBrace, .question,
    .colon, .comma, .semicolon]

section

variable {k : Nat} {s : Symbol} {build : Expr → Expr → Expr}

/-- An operator belongs to one level only. -/
theorem infixLevel_of_infixOp? (h : infixOp? k s = some build) : s.infixLevel = k := by
  unfold infixOp? at h
  split at h <;> first | rfl | cases h

/-- There are no infix operators beyond the levels. -/
theorem lt_infixLevels_of_infixOp? (h : infixOp? k s = some build) : k < infixLevels := by
  unfold infixOp? at h
  split at h <;> first | decide | cases h

/-- No operator is punctuation. -/
theorem notMem_punctuation_of_infixOp? (h : infixOp? k s = some build) : s ∉ punctuation := by
  unfold infixOp? at h
  split at h <;> first | decide | cases h

/-- An operator differs from every sign of punctuation. -/
theorem ne_of_infixOp? (h : infixOp? k s = some build) {t : Symbol} (ht : t ∈ punctuation) :
    s ≠ t :=
  fun same => notMem_punctuation_of_infixOp? h (same ▸ ht)

/-- The trees that infix operators build: besides the two logical ones, those of
the binary operators. -/
theorem build_of_infixOp? (h : infixOp? k s = some build) :
    build = .or ∨ build = .and ∨ ∃ op, build = .binary op := by
  unfold infixOp? at h
  split at h <;> cases h <;>
    first | exact .inl rfl | exact .inr (.inl rfl) | exact .inr (.inr ⟨_, rfl⟩)

end

/-- Punctuation is an operator of no level. -/
theorem infixOp?_of_mem_punctuation {s : Symbol} (h : s ∈ punctuation) (k : Nat) :
    infixOp? k s = none := by
  cases hop : infixOp? k s with
  | none => rfl
  | some build => exact absurd h (notMem_punctuation_of_infixOp? hop)

namespace Parser

/-- `rest` is what is left of `ts` after a phrase `p` with the tree `e`. -/
def Reads (p : Phrase) (ts : List Token) (e : Expr) (rest : List Token) : Prop :=
  ∃ used, ts = used ++ rest ∧ Derives p used e

/-- What is expected is there, if nothing is wrong. -/
theorem expect_eq_ok {s : Symbol} {description : String} {ts rest : List Token}
    (h : expect s description ts = .ok rest) : ts = .symbol s :: rest := by
  unfold expect at h
  split at h
  · split at h
    · rename_i same
      cases h
      rw [same]
    · cases h
  · cases h

/-- What each step of the descent makes of tokens is derived from those that
it took. -/
structure Sound (room : Nat) : Prop where
  ternary : ∀ {ts rest : List Token} {e : Expr},
    Parser.ternary room ts = .ok (e, rest) → Reads .conditional ts e rest
  level : ∀ {k : Nat} {ts rest : List Token} {e : Expr}, k ≤ infixLevels →
    Parser.level room k ts = .ok (e, rest) → Reads (.level k) ts e rest
  levelMore : ∀ {k : Nat} {before ts rest : List Token} {left e : Expr},
    Derives (.level k) before left → Parser.levelMore room k left ts = .ok (e, rest) →
    ∃ used, ts = used ++ rest ∧ Derives (.level k) (before ++ used) e
  signed : ∀ {ts rest : List Token} {e : Expr},
    Parser.signed room ts = .ok (e, rest) → Reads .signed ts e rest
  primary : ∀ {ts rest : List Token} {e : Expr},
    Parser.primary room ts = .ok (e, rest) → Reads .primary ts e rest
  list : ∀ {close : Symbol} {description : String} {ts rest : List Token} {es : List Expr},
    Parser.list room close description ts = .ok (es, rest) →
    ∃ items : List ItemPhrase, (∀ i ∈ items, Derives .conditional i.tokens i.tree) ∧
      ts = joined (items.map ItemPhrase.tokens) ++ .symbol close :: rest ∧
      es = items.map ItemPhrase.tree
  listMore : ∀ {close : Symbol} {description : String} {out es : List Expr}
    {ts rest : List Token}, Parser.listMore room close description out ts = .ok (es, rest) →
    ∃ items : List ItemPhrase, (∀ i ∈ items, Derives .conditional i.tokens i.tree) ∧
      items ≠ [] ∧ ts = joined (items.map ItemPhrase.tokens) ++ .symbol close :: rest ∧
      es = out.reverse ++ items.map ItemPhrase.tree
  fields : ∀ {ts rest : List Token} {fs : List (String × Expr)},
    Parser.fields room ts = .ok (fs, rest) →
    ∃ fields : List FieldPhrase, (∀ f ∈ fields, keyOf? f.key = some f.name) ∧
      (∀ f ∈ fields, Derives .conditional f.tokens f.tree) ∧
      ts = joined (fields.map FieldPhrase.whole) ++ .symbol .closeBrace :: rest ∧
      fs = fields.map FieldPhrase.field
  fieldsMore : ∀ {out fs : List (String × Expr)} {ts rest : List Token},
    Parser.fieldsMore room out ts = .ok (fs, rest) →
    ∃ fields : List FieldPhrase, (∀ f ∈ fields, keyOf? f.key = some f.name) ∧
      (∀ f ∈ fields, Derives .conditional f.tokens f.tree) ∧ fields ≠ [] ∧
      ts = joined (fields.map FieldPhrase.whole) ++ .symbol .closeBrace :: rest ∧
      fs = out.reverse ++ fields.map FieldPhrase.field

/-- Without room nothing is read. -/
theorem sound_zero : Sound 0 := by
  constructor
  all_goals
    intros
    rename_i h
    cases h

namespace Sound

variable {room : Nat}

/-- A choice is a condition and its branches, or the condition alone. -/
theorem ternary_succ (ih : Sound room) {ts rest : List Token} {e : Expr}
    (h : Parser.ternary (room + 1) ts = .ok (e, rest)) : Reads .conditional ts e rest := by
  rw [Parser.ternary] at h
  split at h
  · cases h
  · rename_i c after first
    split at h
    · cases h
    · rename_i y afterYes second
      split at h
      · cases h
      · rename_i afterColon colon
        split at h
        · cases h
        · rename_i n afterNo third
          cases h
          obtain ⟨us, eq, hc⟩ := ih.level (Nat.zero_le _) first
          obtain ⟨vs, eqYes, hy⟩ := ih.ternary second
          obtain ⟨ws, eqNo, hn⟩ := ih.ternary third
          refine ⟨us ++ .symbol .question :: (vs ++ .symbol .colon :: ws), ?_, .choice hc hy hn⟩
          rw [eq, eqYes, expect_eq_ok colon, eqNo]
          simp
  · rename_i first
    cases h
    obtain ⟨us, eq, hc⟩ := ih.level (Nat.zero_le _) first
    exact ⟨us, eq, .plain hc⟩

/-- A level is an operand, and whatever operators of it follow. -/
theorem level_succ (ih : Sound room) {k : Nat} {ts rest : List Token} {e : Expr}
    (hk : k ≤ infixLevels) (h : Parser.level (room + 1) k ts = .ok (e, rest)) :
    Reads (.level k) ts e rest := by
  rw [Parser.level] at h
  split at h
  · rename_i below
    split at h
    · cases h
    · rename_i left after first
      obtain ⟨us, eq, hleft⟩ := ih.level below first
      obtain ⟨vs, eqMore, hmore⟩ := ih.levelMore (.tighter below hleft) h
      exact ⟨us ++ vs, by rw [eq, eqMore, List.append_assoc], hmore⟩
  · rename_i above
    obtain ⟨us, eq, hs⟩ := ih.signed h
    have atTop : k = infixLevels := by omega
    subst atTop
    exact ⟨us, eq, .top hs⟩

/-- Operators of a level take in what was read before as their left operand. -/
theorem levelMore_succ (ih : Sound room) {k : Nat} {before ts rest : List Token} {left e : Expr}
    (hleft : Derives (.level k) before left)
    (h : Parser.levelMore (room + 1) k left ts = .ok (e, rest)) :
    ∃ used, ts = used ++ rest ∧ Derives (.level k) (before ++ used) e := by
  have stop : Except.ok (left, ts) = (Except.ok (e, rest) : Parsed Expr) →
      ∃ used, ts = used ++ rest ∧ Derives (.level k) (before ++ used) e := by
    intro h
    cases h
    exact ⟨[], rfl, by rwa [List.append_nil]⟩
  unfold Parser.levelMore at h
  split at h
  · split at h
    · exact stop h
    · rename_i s next _ build hop
      split at h
      · cases h
      · rename_i right after second
        obtain ⟨us, eq, hright⟩ := ih.level (lt_infixLevels_of_infixOp? hop) second
        obtain ⟨vs, eqMore, hmore⟩ := ih.levelMore (.binary hop hleft hright) h
        refine ⟨.symbol s :: us ++ vs, ?_, ?_⟩
        · rw [eq, eqMore]
          simp
        · rwa [List.append_assoc] at hmore
  · exact stop h

/-- A sign is before another signed phrase, or there is none. -/
theorem signed_succ (ih : Sound room) {ts rest : List Token} {e : Expr}
    (h : Parser.signed (room + 1) ts = .ok (e, rest)) : Reads .signed ts e rest := by
  have base : Parser.primary room ts = .ok (e, rest) → Reads .signed ts e rest := by
    intro h
    obtain ⟨us, eq, hp⟩ := ih.primary h
    exact ⟨us, eq, .base hp⟩
  unfold Parser.signed at h
  split at h
  · split at h
    · rename_i s next _ op hop
      split at h
      · cases h
      · rename_i operand after inner
        cases h
        obtain ⟨us, eq, hs⟩ := ih.signed inner
        exact ⟨.symbol s :: us, by rw [eq]; rfl, .sign hop hs⟩
    · exact base h
  · exact base h

/-- A primary phrase begins with a literal, a name or a bracket. -/
theorem primary_succ (ih : Sound room) {ts rest : List Token} {e : Expr}
    (h : Parser.primary (room + 1) ts = .ok (e, rest)) : Reads .primary ts e rest := by
  unfold Parser.primary at h
  split at h
  · cases h
    exact ⟨_, rfl, .number _⟩
  · cases h
    exact ⟨_, rfl, .text _⟩
  · split at h
    · cases h
    · rename_i inner
      cases h
      obtain ⟨items, derived, eq, trees⟩ := ih.list inner
      subst trees
      exact ⟨_, by rw [eq]; simp, .call _ derived⟩
  · cases h
    exact ⟨_, rfl, .name _⟩
  · split at h
    · cases h
    · rename_i inner
      split at h
      · cases h
      · rename_i close
        cases h
        obtain ⟨us, eq, derived⟩ := ih.ternary inner
        exact ⟨_, by rw [eq, expect_eq_ok close]; simp, .paren derived⟩
  · split at h
    · cases h
    · rename_i inner
      cases h
      obtain ⟨items, derived, eq, trees⟩ := ih.list inner
      subst trees
      exact ⟨_, by rw [eq]; simp, .array derived⟩
  · split at h
    · cases h
    · rename_i inner
      cases h
      obtain ⟨fields, keys, derived, eq, trees⟩ := ih.fields inner
      subst trees
      exact ⟨_, by rw [eq]; simp, .object keys derived⟩
  · cases h

/-- A list is closed at once or has items. -/
theorem list_succ (ih : Sound room) {close : Symbol} {description : String}
    {ts rest : List Token} {es : List Expr}
    (h : Parser.list (room + 1) close description ts = .ok (es, rest)) :
    ∃ items : List ItemPhrase, (∀ i ∈ items, Derives .conditional i.tokens i.tree) ∧
      ts = joined (items.map ItemPhrase.tokens) ++ .symbol close :: rest ∧
      es = items.map ItemPhrase.tree := by
  have more : Parser.listMore room close description [] ts = .ok (es, rest) →
      ∃ items : List ItemPhrase, (∀ i ∈ items, Derives .conditional i.tokens i.tree) ∧
        ts = joined (items.map ItemPhrase.tokens) ++ .symbol close :: rest ∧
        es = items.map ItemPhrase.tree := by
    intro h
    obtain ⟨items, derived, -, eq, trees⟩ := ih.listMore h
    exact ⟨items, derived, eq, by simpa using trees⟩
  unfold Parser.list at h
  split at h
  · split at h
    · rename_i same
      cases h
      exact ⟨[], by simp, by rw [same]; rfl, rfl⟩
    · exact more h
  · exact more h

/-- After an item comes a comma with more, or the end. -/
theorem listMore_succ (ih : Sound room) {close : Symbol} {description : String}
    {out es : List Expr} {ts rest : List Token}
    (h : Parser.listMore (room + 1) close description out ts = .ok (es, rest)) :
    ∃ items : List ItemPhrase, (∀ i ∈ items, Derives .conditional i.tokens i.tree) ∧
      items ≠ [] ∧ ts = joined (items.map ItemPhrase.tokens) ++ .symbol close :: rest ∧
      es = out.reverse ++ items.map ItemPhrase.tree := by
  rw [Parser.listMore] at h
  split at h
  · cases h
  · rename_i e after first
    obtain ⟨us, eq, he⟩ := ih.ternary first
    obtain ⟨items, derived, some_item, eqMore, trees⟩ := ih.listMore h
    refine ⟨⟨us, e⟩ :: items, ?_, by simp, ?_, ?_⟩
    · exact List.forall_mem_cons.mpr ⟨he, derived⟩
    · obtain ⟨i, more, rfl⟩ := List.exists_cons_of_ne_nil some_item
      rw [eq, eqMore]
      simp [joined_cons_cons]
    · rw [trees]
      simp
  · rename_i e after _ first
    split at h
    · cases h
    · rename_i hclose
      cases h
      obtain ⟨us, eq, he⟩ := ih.ternary first
      refine ⟨[⟨us, e⟩], by simpa using he, by simp, ?_, by simp⟩
      rw [eq, expect_eq_ok hclose]
      simp

/-- An object is closed at once or has fields. -/
theorem fields_succ (ih : Sound room) {ts rest : List Token} {fs : List (String × Expr)}
    (h : Parser.fields (room + 1) ts = .ok (fs, rest)) :
    ∃ fields : List FieldPhrase, (∀ f ∈ fields, keyOf? f.key = some f.name) ∧
      (∀ f ∈ fields, Derives .conditional f.tokens f.tree) ∧
      ts = joined (fields.map FieldPhrase.whole) ++ .symbol .closeBrace :: rest ∧
      fs = fields.map FieldPhrase.field := by
  unfold Parser.fields at h
  split at h
  · cases h
  · cases h
    exact ⟨[], by simp, by simp, rfl, rfl⟩
  · rename_i same _
    cases same
    obtain ⟨fields, keys, derived, -, eq, trees⟩ := ih.fieldsMore h
    exact ⟨fields, keys, derived, eq, by simpa using trees⟩

/-- After a field comes a comma with more, or the end. -/
theorem fieldsMore_succ (ih : Sound room) {out fs : List (String × Expr)} {ts rest : List Token}
    (h : Parser.fieldsMore (room + 1) out ts = .ok (fs, rest)) :
    ∃ fields : List FieldPhrase, (∀ f ∈ fields, keyOf? f.key = some f.name) ∧
      (∀ f ∈ fields, Derives .conditional f.tokens f.tree) ∧ fields ≠ [] ∧
      ts = joined (fields.map FieldPhrase.whole) ++ .symbol .closeBrace :: rest ∧
      fs = out.reverse ++ fields.map FieldPhrase.field := by
  cases ts with
  | nil => cases h
  | cons t ts =>
      rw [Parser.fieldsMore] at h
      split at h
      · cases h
      · rename_i key hkey
        split at h
        · cases h
        · rename_i afterColon colon
          split at h
          · cases h
          · rename_i e after first
            obtain ⟨us, eq, he⟩ := ih.ternary first
            obtain ⟨fields, keys, derived, some_field, eqMore, trees⟩ := ih.fieldsMore h
            refine ⟨⟨t, key, us, e⟩ :: fields, ?_, ?_, by simp, ?_, ?_⟩
            · exact List.forall_mem_cons.mpr ⟨hkey, keys⟩
            · exact List.forall_mem_cons.mpr ⟨he, derived⟩
            · obtain ⟨f, more, rfl⟩ := List.exists_cons_of_ne_nil some_field
              rw [expect_eq_ok colon, eq, eqMore]
              simp [joined_cons_cons, FieldPhrase.whole]
            · rw [trees]
              simp [FieldPhrase.field]
          · rename_i e after _ first
            split at h
            · cases h
            · rename_i hclose
              cases h
              obtain ⟨us, eq, he⟩ := ih.ternary first
              refine ⟨[⟨t, key, us, e⟩], by simpa using hkey, by simpa using he, by simp, ?_,
                by simp [FieldPhrase.field]⟩
              rw [expect_eq_ok colon, eq, expect_eq_ok hclose]
              simp [FieldPhrase.whole]

end Sound

/-- The descent is sound, whatever it is allowed. -/
theorem sound (room : Nat) : Sound room := by
  induction room with
  | zero => exact sound_zero
  | succ room ih =>
      exact {
        ternary := ih.ternary_succ
        level := ih.level_succ
        levelMore := ih.levelMore_succ
        signed := ih.signed_succ
        primary := ih.primary_succ
        list := ih.list_succ
        listMore := ih.listMore_succ
        fields := ih.fields_succ
        fieldsMore := ih.fieldsMore_succ }

/-- Whether a symbol behind a phrase may go on with it. -/
def GoesOn : Phrase → Symbol → Prop
  | .conditional, s => s = .openParen ∨ s = .question ∨ ∃ j, infixOp? j s ≠ none
  | .level k, s => s = .openParen ∨ ∃ j, k ≤ j ∧ infixOp? j s ≠ none
  | .signed, s => s = .openParen
  | .primary, s => s = .openParen

/-- The tokens behind a phrase do not go on with it. -/
def Stops (p : Phrase) (rest : List Token) : Prop :=
  ∀ s more, rest = .symbol s :: more → ¬ GoesOn p s

/-- Every phrase stops at the end. -/
theorem stops_nil (p : Phrase) : Stops p [] := by
  intro s more h
  cases h

/-- A phrase stops before a symbol that it does not go on with. -/
theorem stops_symbol {p : Phrase} {s : Symbol} (h : ¬ GoesOn p s) (more : List Token) :
    Stops p (.symbol s :: more) := by
  intro t others same
  cases same
  exact h

/-- What stops a phrase stops the tighter ones. -/
theorem Stops.mono {p q : Phrase} {rest : List Token} (h : Stops p rest)
    (tighter : ∀ s, GoesOn q s → GoesOn p s) : Stops q rest :=
  fun s more eq goes => h s more eq (tighter s goes)

/-- What stops a level stops those above it. -/
theorem Stops.succ {k : Nat} {rest : List Token} (h : Stops (.level k) rest) :
    Stops (.level (k + 1)) rest := by
  refine h.mono ?_
  rintro s (paren | ⟨j, hj, hop⟩)
  · exact .inl paren
  · exact .inr ⟨j, Nat.le_of_succ_le hj, hop⟩

/-- What stops a choice stops the lowest level. -/
theorem Stops.level {rest : List Token} (h : Stops .conditional rest) : Stops (.level 0) rest := by
  refine h.mono ?_
  rintro s (paren | ⟨j, -, hop⟩)
  · exact .inl paren
  · exact .inr (.inr ⟨j, hop⟩)

/-- An infix operator does not go on with a phrase of a tighter level. -/
theorem not_goesOn_of_infixOp? {k : Nat} {s : Symbol} {build : Expr → Expr → Expr}
    (h : infixOp? k s = some build) : ¬ GoesOn (.level (k + 1)) s := by
  rintro (paren | ⟨j, hj, hop⟩)
  · exact ne_of_infixOp? h (by decide) paren
  · obtain ⟨other, hother⟩ := Option.ne_none_iff_exists'.mp hop
    have same := infixLevel_of_infixOp? hother
    rw [infixLevel_of_infixOp? h] at same
    omega

/-- The symbols that end a phrase of any kind. -/
def closers : List Symbol := [.closeParen, .closeBracket, .closeBrace, .comma, .colon, .semicolon]

/-- No phrase goes on with what closes it. -/
theorem not_goesOn_of_mem_closers {s : Symbol} (h : s ∈ closers) : ¬ GoesOn .conditional s := by
  rintro (rfl | rfl | ⟨j, hop⟩)
  · exact absurd h (by decide)
  · exact absurd h (by decide)
  · have table : ∀ t ∈ closers, t ∈ punctuation := by decide
    exact hop (infixOp?_of_mem_punctuation (table s h) j)

/-- No operator goes on with a question mark. -/
theorem not_goesOn_question : ¬ GoesOn (.level 0) .question := by
  rintro (h | ⟨j, -, hop⟩)
  · cases h
  · exact hop (infixOp?_of_mem_punctuation (by decide) j)

/-- A derived phrase is found, with what is left after it, where the allowance
is ample: a token comes at less than sixteen steps.  On an infix level the
descent has come to the end of the phrase, and may yet go on. -/
def Found : Phrase → List Token → Expr → Prop
  | .conditional, ts, e => ∀ room rest, 16 * ts.length ≤ room → Stops .conditional rest →
      ternary room (ts ++ rest) = .ok (e, rest)
  | .level k, ts, e => ∀ room rest, 16 * ts.length ≤ room + 1 + k → Stops (.level (k + 1)) rest →
      ∃ room', room ≤ room' + ts.length ∧ level room k (ts ++ rest) =
        if k < infixLevels then levelMore room' k e rest else .ok (e, rest)
  | .signed, ts, e => ∀ room rest, 16 * ts.length ≤ room + 8 → Stops .signed rest →
      signed room (ts ++ rest) = .ok (e, rest)
  | .primary, ts, e => ∀ room rest, 16 * ts.length ≤ room + 9 → Stops .primary rest →
      primary room (ts ++ rest) = .ok (e, rest)

/-- Where a level stops, nothing more is taken in. -/
theorem levelMore_of_stops {room k : Nat} {left : Expr} {rest : List Token} (hroom : 0 < room)
    (h : Stops (.level k) rest) : levelMore room k left rest = .ok (left, rest) := by
  obtain ⟨room, rfl⟩ := Nat.exists_eq_succ_of_ne_zero (by omega : room ≠ 0)
  unfold levelMore
  split
  · rename_i s more
    cases hop : infixOp? k s with
    | none => rfl
    | some build => exact absurd (.inr ⟨k, Nat.le_refl k, by simp [hop]⟩) (h s more rfl)
  · rfl

/-- Where nothing goes on with it, a phrase of an infix level is found. -/
theorem Found.level_eq {k : Nat} {ts : List Token} {e : Expr} (h : Found (.level k) ts e)
    (hts : ts ≠ []) (hk : k ≤ infixLevels) (room : Nat) (hroom : 16 * ts.length ≤ room + 1 + k)
    {rest : List Token} (hrest : Stops (.level k) rest) :
    Parser.level room k (ts ++ rest) = .ok (e, rest) := by
  have hlength : 0 < ts.length := List.length_pos_iff.mpr hts
  have hlevels : infixLevels = 6 := rfl
  obtain ⟨room', hroom', eq⟩ := h room rest hroom hrest.succ
  rw [eq]
  split
  · exact levelMore_of_stops (by omega) hrest
  · rfl

/-- No phrase begins with a symbol that ends phrases. -/
theorem head_ne_closer {p : Phrase} {ts : List Token} {e : Expr} (h : Derives p ts e)
    {s : Symbol} (hs : s ∈ closers) (rest : List Token) : ts ≠ .symbol s :: rest := by
  intro eq
  have table : ∀ t ∈ closers, ¬ t.BeginsPhrase := by decide
  exact table s hs (h.head_symbol eq)

/-- A primary begins with no sign operator. -/
theorem head_ne_sign {ts : List Token} {e : Expr} (h : Derives .primary ts e) {s : Symbol}
    {more : List Token} (eq : ts = .symbol s :: more) : prefixOp? s = none := by
  cases h with
  | paren _ => cases eq; rfl
  | array _ => cases eq; rfl
  | object _ _ => cases eq; rfl
  | _ => cases eq

theorem expect_self (s : Symbol) (description : String) (rest : List Token) :
    expect s description (.symbol s :: rest) = .ok rest := by
  simp [expect]

/-- A list of derived expressions is found. -/
theorem listMore_of_found {close : Symbol} (hclose : close ∈ closers) (hcomma : close ≠ .comma)
    (description : String) (rest : List Token) {items : List ItemPhrase}
    (found : ∀ i ∈ items, Found .conditional i.tokens i.tree) (some_item : items ≠ [])
    (room : Nat) (out : List Expr)
    (hroom : 16 * (joined (items.map ItemPhrase.tokens)).length + 1 ≤ room) :
    listMore room close description out
        (joined (items.map ItemPhrase.tokens) ++ .symbol close :: rest) =
      .ok (out.reverse ++ items.map ItemPhrase.tree, rest) := by
  induction items generalizing room out with
  | nil => exact absurd rfl some_item
  | cons i items ih =>
      obtain ⟨room, rfl⟩ := Nat.exists_eq_succ_of_ne_zero (by omega : room ≠ 0)
      have hi := found i List.mem_cons_self
      rw [listMore]
      cases items with
      | nil =>
          have first := hi room (.symbol close :: rest) (by simpa using hroom)
            (stops_symbol (not_goesOn_of_mem_closers hclose) rest)
          simp only [List.map_cons, List.map_nil, joined_singleton, first]
          split
          · rename_i failed
            cases failed
          · rename_i went
            cases went
            exact absurd rfl hcomma
          · rename_i went
            cases went
            rw [expect_self]
            simp
      | cons j items =>
          have tail := ih (fun k hk => found k (List.mem_cons_of_mem _ hk)) (by simp) room
            (i.tree :: out)
          simp only [List.map_cons, joined_cons_cons, List.length_append, List.length_cons]
            at hroom tail ⊢
          rw [List.append_assoc, List.cons_append,
            hi room _ (by omega) (stops_symbol (not_goesOn_of_mem_closers (by decide)) _)]
          simpa using tail (by omega)

/-- A list of derived expressions, empty or not, is found between brackets. -/
theorem list_of_found {close : Symbol} (hclose : close ∈ closers) (hcomma : close ≠ .comma)
    (description : String) (rest : List Token) {items : List ItemPhrase}
    (derived : ∀ i ∈ items, Derives .conditional i.tokens i.tree)
    (found : ∀ i ∈ items, Found .conditional i.tokens i.tree) (room : Nat)
    (hroom : 16 * (joined (items.map ItemPhrase.tokens)).length + 2 ≤ room) :
    list room close description (joined (items.map ItemPhrase.tokens) ++ .symbol close :: rest) =
      .ok (items.map ItemPhrase.tree, rest) := by
  obtain ⟨room, rfl⟩ := Nat.exists_eq_succ_of_ne_zero (by omega : room ≠ 0)
  cases items with
  | nil => simp [list]
  | cons i items =>
      have more := listMore_of_found hclose hcomma description rest found (by simp) room []
        (by omega)
      unfold list
      split
      · rename_i s after eq
        split
        · rename_i same
          subst same
          -- the first item cannot begin with the closing symbol
          obtain ⟨t, ts, cut⟩ := List.exists_cons_of_ne_nil
            (derived i List.mem_cons_self).ne_nil
          refine absurd cut ?_
          have head : t = .symbol s := by
            simp only [List.map_cons, joined, cut, List.cons_append] at eq
            injection eq
          rw [head]
          exact head_ne_closer (derived i List.mem_cons_self) hclose ts
        · simpa using more
      · simpa using more

/-- The fields of an object are found. -/
theorem fieldsMore_of_found (rest : List Token) {fields : List FieldPhrase}
    (keys : ∀ f ∈ fields, keyOf? f.key = some f.name)
    (found : ∀ f ∈ fields, Found .conditional f.tokens f.tree) (some_field : fields ≠ [])
    (room : Nat) (out : List (String × Expr))
    (hroom : 16 * (joined (fields.map FieldPhrase.whole)).length + 1 ≤ room) :
    fieldsMore room out
        (joined (fields.map FieldPhrase.whole) ++ .symbol .closeBrace :: rest) =
      .ok (out.reverse ++ fields.map FieldPhrase.field, rest) := by
  induction fields generalizing room out with
  | nil => exact absurd rfl some_field
  | cons f fields ih =>
      obtain ⟨room, rfl⟩ := Nat.exists_eq_succ_of_ne_zero (by omega : room ≠ 0)
      have hkey := keys f List.mem_cons_self
      have hf := found f List.mem_cons_self
      cases fields with
      | nil =>
          simp only [List.map_cons, List.map_nil, joined_singleton, FieldPhrase.whole,
            List.length_cons] at hroom ⊢
          rw [List.cons_append, List.cons_append, fieldsMore]
          simp only [hkey, expect_self]
          rw [hf room _ (by omega) (stops_symbol (not_goesOn_of_mem_closers (by decide)) _)]
          simp [expect_self, FieldPhrase.field]
      | cons g fields =>
          have tail := ih (fun k hk => keys k (List.mem_cons_of_mem _ hk))
            (fun k hk => found k (List.mem_cons_of_mem _ hk)) (by simp) room
            ((f.name, f.tree) :: out)
          simp only [List.map_cons, joined_cons_cons, List.length_append, List.length_cons]
            at hroom tail ⊢
          simp only [FieldPhrase.whole, List.length_cons] at hroom ⊢
          simp only [List.append_assoc, List.cons_append]
          rw [fieldsMore]
          simp only [hkey, expect_self]
          rw [hf room _ (by omega) (stops_symbol (not_goesOn_of_mem_closers (by decide)) _)]
          have tail := tail (by simp only [FieldPhrase.whole]; omega)
          simpa [FieldPhrase.whole, FieldPhrase.field] using tail

/-- The fields of an object, if it has any, are found before its brace. -/
theorem fields_of_found (rest : List Token) {fields : List FieldPhrase}
    (keys : ∀ f ∈ fields, keyOf? f.key = some f.name)
    (found : ∀ f ∈ fields, Found .conditional f.tokens f.tree) (room : Nat)
    (hroom : 16 * (joined (fields.map FieldPhrase.whole)).length + 2 ≤ room) :
    Parser.fields room (joined (fields.map FieldPhrase.whole) ++ .symbol .closeBrace :: rest) =
      .ok (fields.map FieldPhrase.field, rest) := by
  obtain ⟨room, rfl⟩ := Nat.exists_eq_succ_of_ne_zero (by omega : room ≠ 0)
  cases fields with
  | nil => simp [Parser.fields]
  | cons f fields =>
      have more := fieldsMore_of_found rest keys found (by simp) room [] (by omega)
      have hkey := keys f List.mem_cons_self
      rw [Parser.fields]
      · simpa using more
      · intro ts eq
        have head : f.key = .symbol .closeBrace := by
          simp only [List.map_cons, joined, FieldPhrase.whole, List.cons_append] at eq
          injection eq
        rw [head] at hkey
        cases hkey

/-- A primary is found where the step that goes into it finds it. -/
theorem found_primary {ts : List Token} {e : Expr} (ne : ts ≠ [])
    (step : ∀ room rest, 16 * ts.length ≤ room + 10 → Stops .primary rest →
      primary (room + 1) (ts ++ rest) = .ok (e, rest)) : Found .primary ts e := by
  intro room rest hroom hrest
  have hlength := List.length_pos_iff.mpr ne
  obtain ⟨room, rfl⟩ := Nat.exists_eq_succ_of_ne_zero (by omega : room ≠ 0)
  exact step room rest (by omega) hrest

section Productions

variable {ts us vs : List Token} {c e l n r y : Expr} {k : Nat} {s : Symbol}

/-- A condition that nothing is chosen by is found. -/
theorem found_plain (h : Derives (.level 0) ts e) (ih : Found (.level 0) ts e) :
    Found .conditional ts e := by
  intro room rest hroom hrest
  have hlength := List.length_pos_iff.mpr h.ne_nil
  obtain ⟨room, rfl⟩ := Nat.exists_eq_succ_of_ne_zero (by omega : room ≠ 0)
  have first := ih.level_eq h.ne_nil (Nat.zero_le _) room (by omega) hrest.level
  rw [ternary, first]
  split
  · rename_i failed
    cases failed
  · rename_i went
    cases went
    exact absurd (.inr (.inl rfl)) (hrest _ _ rfl)
  · rename_i went
    cases went
    rfl

/-- A choice is found where its three parts are. -/
theorem found_choice (hc : Derives (.level 0) ts c) (ihc : Found (.level 0) ts c)
    (ihy : Found .conditional us y) (ihn : Found .conditional vs n) :
    Found .conditional (ts ++ .symbol .question :: (us ++ .symbol .colon :: vs))
      (.conditional c y n) := by
  intro room rest hroom hrest
  have hlength := List.length_pos_iff.mpr hc.ne_nil
  simp only [List.length_append, List.length_cons] at hroom
  obtain ⟨room, rfl⟩ := Nat.exists_eq_succ_of_ne_zero (by omega : room ≠ 0)
  simp only [List.append_assoc, List.cons_append]
  rw [ternary, ihc.level_eq hc.ne_nil (Nat.zero_le _) room (by omega)
    (stops_symbol not_goesOn_question _)]
  simp only
  rw [ihy room _ (by omega) (stops_symbol (not_goesOn_of_mem_closers (by decide)) _)]
  simp only [expect_self]
  rw [ihn room rest (by omega) hrest]

/-- What binds tighter is found on the level before. -/
theorem found_tighter (hk : k < infixLevels) (h : Derives (.level (k + 1)) ts e)
    (ih : Found (.level (k + 1)) ts e) : Found (.level k) ts e := by
  have hlevels : infixLevels = 6 := rfl
  intro room rest hroom hrest
  have hlength := List.length_pos_iff.mpr h.ne_nil
  obtain ⟨room, rfl⟩ := Nat.exists_eq_succ_of_ne_zero (by omega : room ≠ 0)
  have first := ih.level_eq h.ne_nil hk room (by omega) hrest
  refine ⟨room, by omega, ?_⟩
  rw [level, if_pos hk, first, if_pos hk]

/-- An operation is found where its operands are. -/
theorem found_binary {build : Expr → Expr → Expr} (hop : infixOp? k s = some build)
    (hl : Derives (.level k) ts l) (hr : Derives (.level (k + 1)) us r)
    (ihl : Found (.level k) ts l) (ihr : Found (.level (k + 1)) us r) :
    Found (.level k) (ts ++ .symbol s :: us) (build l r) := by
  have hlevels : infixLevels = 6 := rfl
  intro room rest hroom hrest
  have hk := lt_infixLevels_of_infixOp? hop
  have hlength := List.length_pos_iff.mpr hl.ne_nil
  simp only [List.length_append, List.length_cons] at hroom
  obtain ⟨room', hroom', eq⟩ := ihl room (.symbol s :: us ++ rest) (by omega)
    (stops_symbol (not_goesOn_of_infixOp? hop) _)
  obtain ⟨room', rfl⟩ := Nat.exists_eq_succ_of_ne_zero (by omega : room' ≠ 0)
  have second := ihr.level_eq hr.ne_nil hk room' (by omega) hrest
  refine ⟨room', by simp only [List.length_append, List.length_cons]; omega, ?_⟩
  rw [List.append_assoc, eq, if_pos hk, if_pos hk, List.cons_append, levelMore]
  simp only [hop, second]

/-- What has no infix operator is found on the last level. -/
theorem found_top (h : Derives .signed ts e) (ih : Found .signed ts e) :
    Found (.level infixLevels) ts e := by
  have hlevels : infixLevels = 6 := rfl
  intro room rest hroom hrest
  have hlength := List.length_pos_iff.mpr h.ne_nil
  obtain ⟨room, rfl⟩ := Nat.exists_eq_succ_of_ne_zero (by omega : room ≠ 0)
  refine ⟨room, by omega, ?_⟩
  rw [level, if_neg (Nat.lt_irrefl _), if_neg (Nat.lt_irrefl _)]
  refine ih room rest (by omega) (hrest.mono ?_)
  rintro s rfl
  exact .inl rfl

/-- A sign is found in front of what it stands for. -/
theorem found_sign {op : UnaryOp} (hop : prefixOp? s = some op) (ih : Found .signed ts e) :
    Found .signed (.symbol s :: ts) (.unary op e) := by
  intro room rest hroom hrest
  simp only [List.length_cons] at hroom
  obtain ⟨room, rfl⟩ := Nat.exists_eq_succ_of_ne_zero (by omega : room ≠ 0)
  rw [List.cons_append, signed]
  simp only [hop]
  rw [ih room rest (by omega) hrest]

/-- A primary is found where a sign may stand. -/
theorem found_base (h : Derives .primary ts e) (ih : Found .primary ts e) :
    Found .signed ts e := by
  intro room rest hroom hrest
  have hlength := List.length_pos_iff.mpr h.ne_nil
  obtain ⟨room, rfl⟩ := Nat.exists_eq_succ_of_ne_zero (by omega : room ≠ 0)
  have inner := ih room rest (by omega) hrest
  obtain ⟨t, more, rfl⟩ := List.exists_cons_of_ne_nil h.ne_nil
  unfold signed
  split
  · rename_i s after same
    injection same with head
    rw [head_ne_sign h (congrArg (· :: more) head)]
    exact inner
  · exact inner

/-- A name is read as what it stands for. -/
theorem found_name (s : String) : Found .primary [.name s] (nameExpr s) := by
  refine found_primary (by simp) fun room rest _ hrest => ?_
  rw [List.cons_append, List.nil_append, primary]
  intro more eq
  exact hrest _ more eq rfl

/-- What is in parentheses is found with them. -/
theorem found_paren (ih : Found .conditional ts e) :
    Found .primary (.symbol .openParen :: (ts ++ [.symbol .closeParen])) e := by
  refine found_primary (by simp) fun room rest hroom _ => ?_
  simp only [List.length_append, List.length_cons, List.length_nil] at hroom
  simp only [List.cons_append, List.append_assoc, List.nil_append]
  rw [primary, ih room _ (by omega) (stops_symbol (not_goesOn_of_mem_closers (by decide)) _)]
  simp only [expect_self]

variable {items : List ItemPhrase} (derived : ∀ i ∈ items, Derives .conditional i.tokens i.tree)
  (ih : ∀ i ∈ items, Found .conditional i.tokens i.tree)
include derived ih

/-- A call is found where its arguments are. -/
theorem found_call (s : String) :
    Found .primary (.name s :: .symbol .openParen ::
      (joined (items.map ItemPhrase.tokens) ++ [.symbol .closeParen]))
      (.call s (items.map ItemPhrase.tree)) := by
  refine found_primary (by simp) fun room rest hroom _ => ?_
  simp only [List.length_append, List.length_cons, List.length_nil] at hroom
  simp only [List.cons_append, List.append_assoc, List.nil_append]
  rw [primary, list_of_found (by decide) (by decide) _ rest derived ih room (by omega)]

/-- An array is found where its items are. -/
theorem found_array :
    Found .primary (.symbol .openBracket ::
      (joined (items.map ItemPhrase.tokens) ++ [.symbol .closeBracket]))
      (.array (items.map ItemPhrase.tree)) := by
  refine found_primary (by simp) fun room rest hroom _ => ?_
  simp only [List.length_append, List.length_cons, List.length_nil] at hroom
  simp only [List.cons_append, List.append_assoc, List.nil_append]
  rw [primary, list_of_found (by decide) (by decide) _ rest derived ih room (by omega)]

omit derived ih in
/-- An object is found where its fields are. -/
theorem found_object {fields : List FieldPhrase} (keys : ∀ f ∈ fields, keyOf? f.key = some f.name)
    (ih : ∀ f ∈ fields, Found .conditional f.tokens f.tree) :
    Found .primary (.symbol .openBrace ::
      (joined (fields.map FieldPhrase.whole) ++ [.symbol .closeBrace]))
      (.object (fields.map FieldPhrase.field)) := by
  refine found_primary (by simp) fun room rest hroom _ => ?_
  simp only [List.length_append, List.length_cons, List.length_nil] at hroom
  simp only [List.cons_append, List.append_assoc, List.nil_append]
  rw [primary, fields_of_found rest keys ih room (by omega)]

end Productions

/-- Every derivation is found. -/
theorem complete {p : Phrase} {ts : List Token} {e : Expr} (h : Derives p ts e) :
    Found p ts e := by
  induction h with
  | plain h ih => exact found_plain h ih
  | choice hc _ _ ihc ihy ihn => exact found_choice hc ihc ihy ihn
  | tighter hk h ih => exact found_tighter hk h ih
  | binary hop hl hr ihl ihr => exact found_binary hop hl hr ihl ihr
  | top h ih => exact found_top h ih
  | sign hop _ ih => exact found_sign hop ih
  | base h ih => exact found_base h ih
  | number x | text s => exact found_primary (by simp) fun _ _ _ _ => rfl
  | name s => exact found_name s
  | call s derived ih => exact found_call derived ih s
  | paren _ ih => exact found_paren ih
  | array derived ih => exact found_array derived ih
  | object keys _ ih => exact found_object keys ih

/-- The formulas are what the grammar derives, perhaps with a semicolon at the
end. -/
theorem parseTokens_eq_ok_iff {ts : List Token} {e : Expr} :
    parseTokens ts = .ok e ↔
      ∃ body, (ts = body ∨ ts = body ++ [.symbol .semicolon]) ∧
        Derives .conditional body e := by
  constructor
  · intro h
    unfold parseTokens at h
    split at h
    · cases h
    · rename_i tree rest first
      obtain ⟨body, eq, derived⟩ := (sound _).ternary first
      dsimp only at h
      split at h
      · rename_i done
        cases h
        refine ⟨body, ?_, derived⟩
        rw [eq]
        split at done
        · exact .inr (by rw [done])
        · exact .inl (by rw [done, List.append_nil])
      · cases h
  · intro ⟨body, ends, derived⟩
    have found := complete derived
    unfold parseTokens
    rcases ends with rfl | rfl
    · have first := found (16 * (ts.length + 1)) [] (by omega) (stops_nil _)
      rw [List.append_nil] at first
      simp only [first]
    · have first := found (16 * ((body ++ [Token.symbol .semicolon]).length + 1))
        [.symbol .semicolon] (by simp; omega)
        (stops_symbol (not_goesOn_of_mem_closers (by decide)) _)
      simp only [first]

/-- In a formula no two tokens other than symbols are next to each other. -/
theorem separated_of_parseTokens {ts : List Token} {e : Expr} (h : parseTokens ts = .ok e) :
    Separated ts := by
  obtain ⟨body, ends, derived⟩ := parseTokens_eq_ok_iff.mp h
  rcases ends with rfl | rfl
  · exact derived.separated
  · exact derived.separated.append_symbol .nil .semicolon

/-- A formula begins with no symbol that a phrase cannot begin with. -/
theorem head_symbol_of_parseTokens {s : Symbol} {ts : List Token} {e : Expr}
    (h : parseTokens (.symbol s :: ts) = .ok e) : s.BeginsPhrase := by
  obtain ⟨body, ends, derived⟩ := parseTokens_eq_ok_iff.mp h
  rcases ends with rfl | ends
  · exact derived.head_symbol rfl
  · obtain ⟨t, more, rfl⟩ := List.exists_cons_of_ne_nil derived.ne_nil
    obtain ⟨rfl, -⟩ := List.cons.inj ends
    exact derived.head_symbol rfl

end Parser

end FormulaSheet
