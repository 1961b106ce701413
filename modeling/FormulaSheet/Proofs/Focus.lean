import FormulaSheet.Proofs.Eager
import FormulaSheet.Proofs.Grammar

/-!
# Calls among the tokens of a formula

Wherever a name stands before an opening parenthesis in a formula, there is a
call of that name in the formula's tree.  Any primary can take its place among
the tokens, and takes its place in the tree with it.

* `split_call`, `split_joined`, `split_brackets` — where a call stands in what is
  put together;
* `Focused` — a call with its place in the tree;
* `CallsFocused` — every call of a phrase has one, production by production;
* `Derives.focused`, `Parser.focused_of_parseTokens` — every call has one.
-/

namespace FormulaSheet

/-- A call does not reach across a symbol other than an opening
parenthesis. -/
theorem split_call {ts us pre rest : List Token} {f : String} {s : Symbol} (hs : s ≠ .openParen)
    (eq : ts ++ .symbol s :: us = pre ++ .name f :: .symbol .openParen :: rest) :
    (∃ rest', ts = pre ++ .name f :: .symbol .openParen :: rest' ∧
        rest = rest' ++ .symbol s :: us) ∨
      ∃ pre', us = pre' ++ .name f :: .symbol .openParen :: rest ∧
        pre = ts ++ .symbol s :: pre' := by
  rcases List.append_eq_append_iff.mp eq with ⟨after, hpre, hafter⟩ | ⟨after, hts, hafter⟩
  · cases after with
    | nil => cases hafter
    | cons t after =>
        obtain ⟨rfl, hus⟩ := List.cons.inj hafter
        exact .inr ⟨after, hus, hpre⟩
  · cases after with
    | nil => cases hafter
    | cons t after =>
        obtain ⟨rfl, hopen⟩ := List.cons.inj hafter
        cases after with
        | nil =>
            obtain ⟨same, -⟩ := List.cons.inj hopen
            exact absurd (Token.symbol.inj same).symm hs
        | cons u after =>
            obtain ⟨rfl, hrest⟩ := List.cons.inj hopen
            exact .inl ⟨after, hts, hrest⟩

/-- A call behind a symbol. -/
theorem split_symbol {us pre rest : List Token} {f : String} {s : Symbol}
    (eq : .symbol s :: us = pre ++ .name f :: rest) :
    ∃ pre', us = pre' ++ .name f :: rest ∧ pre = .symbol s :: pre' := by
  cases pre with
  | nil => cases eq
  | cons t pre =>
      obtain ⟨rfl, hus⟩ := List.cons.inj eq
      exact ⟨pre, hus, rfl⟩

/-- A call before the symbol at the end. -/
theorem split_last {ts pre rest : List Token} {f : String} {s : Symbol} (hs : s ≠ .openParen)
    (eq : ts ++ [.symbol s] = pre ++ .name f :: .symbol .openParen :: rest) :
    ∃ rest', ts = pre ++ .name f :: .symbol .openParen :: rest' ∧ rest = rest' ++ [.symbol s] := by
  rcases split_call hs eq with found | ⟨pre', hnil, -⟩
  · exact found
  · exact absurd hnil (by simp)

/-- A call among lists of tokens with commas between them is in one of
them. -/
theorem split_joined {ι : Type} {tokens : ι → List Token} {as : List ι} {pre rest : List Token}
    {f : String}
    (eq : joined (as.map tokens) = pre ++ .name f :: .symbol .openParen :: rest) :
    ∃ front a back l r pre' rest', as = front ++ a :: back ∧
      tokens a = pre' ++ .name f :: .symbol .openParen :: rest' ∧ pre = l ++ pre' ∧
      rest = rest' ++ r ∧ ∀ b, joined ((front ++ b :: back).map tokens) = l ++ tokens b ++ r := by
  induction as generalizing pre with
  | nil => exact absurd eq (by simp)
  | cons a as ih =>
      cases as with
      | nil =>
          rw [List.map_singleton, joined_singleton] at eq
          exact ⟨[], a, [], [], [], pre, rest, rfl, eq, rfl, (List.append_nil _).symm, by simp⟩
      | cons a' as =>
          rw [List.map_cons, List.map_cons, joined_cons_cons] at eq
          rcases split_call (by decide) eq with ⟨rest', hhere, hrest⟩ | ⟨pre', hthere, hpre⟩
          · refine ⟨[], a, a' :: as, [], _, pre, rest', rfl, hhere, rfl, hrest, ?_⟩
            intro b
            rw [List.nil_append, List.nil_append, List.map_cons, List.map_cons, joined_cons_cons]
          · obtain ⟨front, b, back, l, r, pre'', rest', hsplit, hb, hl, hr, whole⟩ :=
              ih hthere
            refine ⟨a :: front, b, back, tokens a ++ .symbol .comma :: l, r, pre'', rest', ?_, hb,
              ?_, hr, ?_⟩
            · rw [hsplit]
              rfl
            · rw [hpre, hl]
              simp
            · intro c
              have more := whole c
              cases front with
              | nil =>
                  rw [List.nil_append, List.map_cons] at more
                  simp only [List.cons_append, List.nil_append, List.map_cons, joined_cons_cons]
                  rw [more]
                  simp
              | cons d front =>
                  rw [List.cons_append, List.map_cons] at more
                  simp only [List.cons_append, List.map_cons, joined_cons_cons]
                  rw [more]
                  simp

/-- A call between two brackets is in one of the lists of tokens there. -/
theorem split_brackets {ι : Type} {tokens : ι → List Token} {as : List ι} {pre rest : List Token}
    {f : String} {s t : Symbol} (ht : t ≠ .openParen)
    (eq : .symbol s :: (joined (as.map tokens) ++ [.symbol t]) =
      pre ++ .name f :: .symbol .openParen :: rest) :
    ∃ front a back l r pre' rest', as = front ++ a :: back ∧
      tokens a = pre' ++ .name f :: .symbol .openParen :: rest' ∧ pre = l ++ pre' ∧
      rest = rest' ++ r ∧
      ∀ b, .symbol s :: (joined ((front ++ b :: back).map tokens) ++ [.symbol t]) =
        l ++ tokens b ++ r := by
  obtain ⟨inner, between, rfl⟩ := split_symbol eq
  obtain ⟨behind, listed, rfl⟩ := split_last ht between
  obtain ⟨front, a, back, l, r, pre', rest', split, ha, rfl, rfl, whole⟩ := split_joined listed
  refine ⟨front, a, back, .symbol s :: l, r ++ [.symbol t], pre', rest', split, ha, rfl, ?_, ?_⟩
  · exact List.append_assoc ..
  · intro b
    rw [whole]
    simp

/-- The key of a field is followed by a colon, so a call in it is in the value. -/
theorem FieldPhrase.split_whole {fd : FieldPhrase} {pre rest : List Token} {f : String}
    (eq : fd.whole = pre ++ .name f :: .symbol .openParen :: rest) :
    ∃ pre', fd.tokens = pre' ++ .name f :: .symbol .openParen :: rest ∧
      pre = fd.key :: .symbol .colon :: pre' := by
  cases pre with
  | nil => exact absurd (List.cons.inj (List.cons.inj eq).2).1 (by decide)
  | cons t pre =>
      obtain ⟨rfl, behind⟩ := List.cons.inj eq
      obtain ⟨pre', value, rfl⟩ := split_symbol behind
      exact ⟨pre', value, rfl⟩

/-- `Focused D pre f rest e`: the name `f` behind the tokens `pre`, with an
opening parenthesis and `rest` behind it, is a call in the tree `e`.  Tokens
in which a primary stands for the call are in `D` with the tree in which it
does. -/
def Focused (D : List Token → Expr → Prop) (pre : List Token) (f : String) (rest : List Token)
    (e : Expr) : Prop :=
  ∃ (items : List ItemPhrase) (post : List Token) (C : Expr → Expr),
    rest = joined (items.map ItemPhrase.tokens) ++ .symbol .closeParen :: post ∧
    (∀ i ∈ items, Derives .conditional i.tokens i.tree) ∧
    e = C (.call f (items.map ItemPhrase.tree)) ∧ Hole C ∧
    ∀ ts e', Derives .primary ts e' → D (pre ++ ts ++ post) (C e')

/-- A call in a part of a formula is one in the whole. -/
theorem Focused.wrap {D F : List Token → Expr → Prop} {pre rest : List Token} {f : String}
    {e : Expr} (h : Focused D pre f rest e) {l r : List Token} {K : Expr → Expr} (hole : Hole K)
    (whole : ∀ ts e, D ts e → F (l ++ ts ++ r) (K e)) :
    Focused F (l ++ pre) f (rest ++ r) (K e) := by
  obtain ⟨items, post, C, hrest, hitems, rfl, hC, exchange⟩ := h
  refine ⟨items, post ++ r, fun a => K (C a), ?_, hitems, rfl, hole.comp hC, ?_⟩
  · rw [hrest]
    simp
  · intro ts e' derived
    have := whole _ _ (exchange ts e' derived)
    simpa using this

theorem Focused.mono {D D' : List Token → Expr → Prop} {pre rest : List Token} {f : String}
    {e : Expr} (h : Focused D pre f rest e) (sub : ∀ ts e, D ts e → D' ts e) :
    Focused D' pre f rest e := by
  obtain ⟨items, post, C, hrest, hitems, he, hC, exchange⟩ := h
  exact ⟨items, post, C, hrest, hitems, he, hC, fun ts e' h => sub _ _ (exchange ts e' h)⟩

theorem forall_mem_exchange {α : Type} {P : α → Prop} {front back : List α} {a b : α}
    (h : ∀ c ∈ front ++ a :: back, P c) (hb : P b) : ∀ c ∈ front ++ b :: back, P c := by
  obtain ⟨hfront, hback⟩ := List.forall_mem_append.mp h
  exact List.forall_mem_append.mpr
    ⟨hfront, List.forall_mem_cons.mpr ⟨hb, (List.forall_mem_cons.mp hback).2⟩⟩

/-- Every name before an opening parenthesis among the tokens of a phrase is a call
in its tree. -/
def CallsFocused (p : Phrase) (ts : List Token) (e : Expr) : Prop :=
  ∀ {pre rest : List Token} {f : String}, ts = pre ++ .name f :: .symbol .openParen :: rest →
    Focused (Derives p) pre f rest e

namespace CallsFocused

variable {ts us vs : List Token} {c e l n r y : Expr}

/-- A call is in the condition or in what is chosen. -/
theorem choice (hc : Derives (.level 0) ts c) (hy : Derives .conditional us y)
    (hn : Derives .conditional vs n) (ihc : CallsFocused (.level 0) ts c)
    (ihy : CallsFocused .conditional us y) (ihn : CallsFocused .conditional vs n) :
    CallsFocused .conditional (ts ++ .symbol .question :: (us ++ .symbol .colon :: vs))
      (.conditional c y n) := by
  intro pre rest f eq
  rcases split_call (by decide) eq with ⟨rest', hhere, rfl⟩ | ⟨pre', hthere, rfl⟩
  · exact (ihc hhere).wrap (l := []) (.condition y n) fun _ _ h => .choice h hy hn
  · rcases split_call (by decide) hthere with ⟨rest', hhere, rfl⟩ | ⟨pre'', hlast, rfl⟩
    · have whole := (ihy hhere).wrap (l := ts ++ [.symbol .question])
        (r := .symbol .colon :: vs) (F := Derives .conditional) (.yes c n) fun _ _ h => by
          simpa using Derives.choice hc h hn
      simpa using whole
    · have whole := (ihn hlast).wrap (r := [])
        (l := ts ++ .symbol .question :: (us ++ [.symbol .colon]))
        (F := Derives .conditional) (.no c y) fun _ _ h => by
          simpa using Derives.choice hc hy h
      simpa using whole

/-- A call is in one of the operands. -/
theorem binary {k : Nat} {s : Symbol} {build : Expr → Expr → Expr}
    (hop : infixOp? k s = some build) (hl : Derives (.level k) ts l)
    (hr : Derives (.level (k + 1)) us r) (ihl : CallsFocused (.level k) ts l)
    (ihr : CallsFocused (.level (k + 1)) us r) :
    CallsFocused (.level k) (ts ++ .symbol s :: us) (build l r) := by
  intro pre rest f eq
  rcases split_call (ne_of_infixOp? hop (by decide)) eq with
    ⟨rest', hhere, rfl⟩ | ⟨pre', hthere, rfl⟩
  · exact (ihl hhere).wrap (l := []) (.left hop r) fun _ _ h => .binary hop h hr
  · have whole := (ihr hthere).wrap (l := ts ++ [.symbol s]) (r := [])
      (F := Derives (.level k)) (.right hop l) fun _ _ h => by
        simpa using Derives.binary hop hl h
    simpa using whole

/-- A call is behind the sign. -/
theorem sign {s : Symbol} {op : UnaryOp} (hop : prefixOp? s = some op)
    (ih : CallsFocused .signed ts e) : CallsFocused .signed (.symbol s :: ts) (.unary op e) := by
  intro pre rest f eq
  obtain ⟨pre', hthere, rfl⟩ := split_symbol eq
  have whole := (ih hthere).wrap (l := [.symbol s]) (r := []) (F := Derives .signed)
    (.unary op) fun _ _ h => by simpa using Derives.sign hop h
  simpa using whole

/-- A call is between the parentheses. -/
theorem paren (ih : CallsFocused .conditional ts e) :
    CallsFocused .primary (.symbol .openParen :: (ts ++ [.symbol .closeParen])) e := by
  intro pre rest f eq
  obtain ⟨pre', hthere, rfl⟩ := split_symbol eq
  obtain ⟨rest', hhere, rfl⟩ := split_last (by decide) hthere
  exact (ih hhere).wrap (l := [.symbol .openParen]) .id fun _ _ h => by
    simpa using Derives.paren h

/-- A call is the whole, or in one of the arguments. -/
theorem call (s : String) {items : List ItemPhrase}
    (hitems : ∀ i ∈ items, Derives .conditional i.tokens i.tree)
    (ih : ∀ i ∈ items, CallsFocused .conditional i.tokens i.tree) :
    CallsFocused .primary (.name s :: .symbol .openParen ::
      (joined (items.map ItemPhrase.tokens) ++ [.symbol .closeParen]))
      (.call s (items.map ItemPhrase.tree)) := by
  intro pre rest f eq
  cases pre with
  | nil =>
      obtain ⟨hname, htail⟩ := List.cons.inj eq
      cases hname
      obtain ⟨-, rfl⟩ := List.cons.inj htail
      refine ⟨items, [], fun a => a, rfl, hitems, rfl, .id, ?_⟩
      intro ts e' derived
      simpa using derived
  | cons t pre =>
      obtain ⟨rfl, htail⟩ := List.cons.inj eq
      obtain ⟨front, i, back, l, r, pre', rest', rfl, hi, rfl, rfl, others⟩ :=
        split_brackets (by decide) htail
      have whole := (ih i (by simp) hi).wrap (F := Derives .primary) (l := .name s :: l)
        (r := r) (.argument s (front.map ItemPhrase.tree) (back.map ItemPhrase.tree))
        fun ts e h => by
          have built := Derives.call s (forall_mem_exchange (b := ⟨ts, e⟩) hitems h)
          rw [others] at built
          simpa using built
      simpa using whole

/-- A call is in one of the items. -/
theorem array {items : List ItemPhrase}
    (hitems : ∀ i ∈ items, Derives .conditional i.tokens i.tree)
    (ih : ∀ i ∈ items, CallsFocused .conditional i.tokens i.tree) :
    CallsFocused .primary (.symbol .openBracket ::
      (joined (items.map ItemPhrase.tokens) ++ [.symbol .closeBracket]))
      (.array (items.map ItemPhrase.tree)) := by
  intro pre rest f eq
  obtain ⟨front, i, back, l, r, pre', rest', rfl, hi, rfl, rfl, others⟩ :=
    split_brackets (by decide) eq
  have whole := (ih i (by simp) hi).wrap (F := Derives .primary) (l := l) (r := r)
    (.item (front.map ItemPhrase.tree) (back.map ItemPhrase.tree)) fun ts e h => by
      have built := Derives.array (forall_mem_exchange (b := ⟨ts, e⟩) hitems h)
      rw [others] at built
      simpa using built
  simpa using whole

/-- A call is in the value of one of the fields. -/
theorem object {fields : List FieldPhrase} (hkeys : ∀ f ∈ fields, keyOf? f.key = some f.name)
    (hfields : ∀ f ∈ fields, Derives .conditional f.tokens f.tree)
    (ih : ∀ f ∈ fields, CallsFocused .conditional f.tokens f.tree) :
    CallsFocused .primary (.symbol .openBrace ::
      (joined (fields.map FieldPhrase.whole) ++ [.symbol .closeBrace]))
      (.object (fields.map FieldPhrase.field)) := by
  intro pre rest f eq
  obtain ⟨front, fd, back, l, r, pre', rest', rfl, hfd, rfl, rfl, others⟩ :=
    split_brackets (by decide) eq
  obtain ⟨pre, hvalue, rfl⟩ := FieldPhrase.split_whole hfd
  have whole := (ih fd (by simp) hvalue).wrap (F := Derives .primary)
    (l := l ++ [fd.key, .symbol .colon]) (r := r)
    (.field fd.name (front.map FieldPhrase.field) (back.map FieldPhrase.field))
    fun ts e h => by
      have keys := forall_mem_exchange (b := ⟨fd.key, fd.name, ts, e⟩) hkeys (hkeys fd (by simp))
      have built := Derives.object keys (forall_mem_exchange hfields h)
      rw [others] at built
      simpa [FieldPhrase.whole, FieldPhrase.field] using built
  simpa [FieldPhrase.field] using whole

end CallsFocused

/-- **Every name before an opening parenthesis is a call.** -/
theorem Derives.focused {p : Phrase} {ts : List Token} {e : Expr} (h : Derives p ts e) :
    CallsFocused p ts e := by
  have noCall : ∀ {t : Token} {pre rest : List Token} {f : String},
      [t] ≠ pre ++ .name f :: .symbol .openParen :: rest := by
    intro t pre rest f eq
    cases pre <;> simp at eq
  induction h with
  | plain _ ih => exact fun eq => (ih eq).mono fun _ _ => .plain
  | choice hc hy hn ihc ihy ihn => exact CallsFocused.choice hc hy hn ihc ihy ihn
  | tighter hk _ ih => exact fun eq => (ih eq).mono fun _ _ => .tighter hk
  | binary hop hl hr ihl ihr => exact CallsFocused.binary hop hl hr ihl ihr
  | top _ ih => exact fun eq => (ih eq).mono fun _ _ => .top
  | sign hop _ ih => exact CallsFocused.sign hop ih
  | base _ ih => exact fun eq => (ih eq).mono fun _ _ => .base
  | number x | text s | name s => exact fun eq => absurd eq noCall
  | call s hitems ih => exact CallsFocused.call s hitems ih
  | paren _ ih => exact CallsFocused.paren ih
  | array hitems ih => exact CallsFocused.array hitems ih
  | object hkeys hfields ih => exact CallsFocused.object hkeys hfields ih

/-- Calls among lists of tokens with commas between them. -/
theorem focused_joined {items : List ItemPhrase}
    (hitems : ∀ i ∈ items, Derives .conditional i.tokens i.tree) {pre rest : List Token}
    {f : String}
    (eq : joined (items.map ItemPhrase.tokens) =
      pre ++ .name f :: .symbol .openParen :: rest) :
    ∃ (inner : List ItemPhrase) (post : List Token),
      rest = joined (inner.map ItemPhrase.tokens) ++ .symbol .closeParen :: post ∧
      ∀ i ∈ inner, Derives .conditional i.tokens i.tree := by
  obtain ⟨front, i, back, l, r, pre', rest', rfl, hi, rfl, rfl, -⟩ := split_joined eq
  obtain ⟨inner, post, C, hrest, hinner, -⟩ := (hitems i (by simp)).focused hi
  exact ⟨inner, post ++ r, by rw [hrest]; simp, hinner⟩

/-- Every name before an opening parenthesis in a formula is a call. -/
theorem Parser.focused_of_parseTokens {ts : List Token} {e : Expr}
    (h : parseTokens ts = .ok e) {pre rest : List Token} {f : String}
    (eq : ts = pre ++ .name f :: .symbol .openParen :: rest) :
    Focused (fun ts e => parseTokens ts = .ok e) pre f rest e := by
  obtain ⟨body, ends, derived⟩ := parseTokens_eq_ok_iff.mp h
  rcases ends with rfl | rfl
  · exact (derived.focused eq).mono fun ts _ h => parseTokens_eq_ok_iff.mpr ⟨ts, .inl rfl, h⟩
  · obtain ⟨rest', hhere, rfl⟩ := split_last (by decide) eq
    exact (derived.focused hhere).wrap (l := []) .id fun ts _ h =>
      parseTokens_eq_ok_iff.mpr ⟨ts, .inr rfl, h⟩

end FormulaSheet
