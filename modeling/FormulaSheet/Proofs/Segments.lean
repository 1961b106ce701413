import FormulaSheet.Proofs.Arguments

/-!
# The segments of a call's arguments

Arguments are cut out of a text by a count of brackets that knows one kind of
bracket only, and then each is parsed for itself.  The parser reads them in one
go, each kind of bracket by its own rule.  Both come to the same trees.

* `Derives.exists_of_call` — the tokens of a call are the call, perhaps in
  parentheses;
* `splitArguments_parse` — the segments of a call's text are its arguments.
-/

namespace FormulaSheet

theorem infixOp?_ne_call {k : Nat} {s : Symbol} {build : Expr → Expr → Expr}
    (h : infixOp? k s = some build) (l r : Expr) (f : String) (es : List Expr) :
    build l r ≠ .call f es := by
  obtain rfl | rfl | ⟨op, rfl⟩ := build_of_infixOp? h <;> nofun

/-- What is derived as a call is a name with arguments, perhaps in
parentheses. -/
theorem Derives.exists_of_call {p : Phrase} {ts : List Token} {f : String} {es : List Expr}
    (h : Derives p ts (.call f es)) :
    ∃ (n : Nat) (items : List ItemPhrase),
      ts = List.replicate n (.symbol .openParen) ++
        (.name f :: .symbol .openParen ::
          (joined (items.map ItemPhrase.tokens) ++ [.symbol .closeParen])) ++
        List.replicate n (.symbol .closeParen) ∧
      (∀ i ∈ items, Derives .conditional i.tokens i.tree) ∧ es = items.map ItemPhrase.tree := by
  generalize tree : Expr.call f es = e at h
  induction h with
  | plain _ ih => exact ih tree
  | choice _ _ _ _ _ _ => cases tree
  | tighter _ _ ih => exact ih tree
  | binary hop _ _ _ _ => exact absurd tree.symm (infixOp?_ne_call hop _ _ _ _)
  | top _ ih => exact ih tree
  | sign _ _ _ => cases tree
  | base _ ih => exact ih tree
  | number x => cases tree
  | text s => cases tree
  | name s =>
      unfold nameExpr at tree
      split at tree <;> cases tree
  | @call s items hitems _ =>
      cases tree
      exact ⟨0, items, by simp, hitems, rfl⟩
  | paren _ ih =>
      obtain ⟨n, items, rfl, hitems, hes⟩ := ih tree
      refine ⟨n + 1, items, ?_, hitems, hes⟩
      rw [List.replicate_succ, List.replicate_succ']
      simp
  | array _ _ => cases tree
  | object _ _ _ => cases tree

namespace Block

/-- A block that begins like a name is one. -/
theorem exists_name {b : Block} (h : b.Valid) {c : Char} {more : List Char}
    (eq : b.text = c :: more) (start : isNameStart c = true) : ∃ w, b = .name w := by
  cases b with
  | name w => exact ⟨w, rfl⟩
  | blank d =>
      obtain rfl : d = c := (List.cons.inj eq).1
      have word := isWord_of_isNameStart start
      have notBlank := not_isBlank_of_isWord word
      rw [show Character.isBlank d = true from h] at notBlank
      cases notBlank
  | number cs x =>
      cases h.1 with
      | digit hdigit _ _ =>
          obtain ⟨rfl, -⟩ := List.cons.inj eq
          rw [not_isNameStart_of_isDigit hdigit] at start
          cases start
      | point _ _ _ =>
          obtain ⟨rfl, -⟩ := List.cons.inj eq
          exact absurd start (by decide)
  | quoted q body s =>
      obtain ⟨rfl, -⟩ := List.cons.inj eq
      rcases h.1 with rfl | rfl <;> exact absurd start (by decide)
  | sign cs s =>
      have table : ∀ p ∈ signs, p.1.head?.all (fun d => !isNameStart d) = true := by decide
      have first := table _ h
      rw [show cs = c :: more from eq] at first
      simp [start] at first

/-- A block that begins with a parenthesis is the parenthesis. -/
theorem eq_openParen {b : Block} (h : b.Valid) {more : List Char} (eq : b.text = '(' :: more) :
    b = .sign ['('] .openParen := by
  cases b with
  | blank c =>
      obtain rfl : c = '(' := (List.cons.inj eq).1
      exact absurd (show Character.isBlank '(' = true from h) (by decide)
  | name w =>
      rw [show w = '(' :: more from eq] at h
      cases h
  | number cs x =>
      cases h.1 with
      | digit hdigit _ _ =>
          obtain ⟨rfl, -⟩ := List.cons.inj eq
          exact absurd hdigit (by decide)
      | point _ _ _ => cases eq
  | quoted q body s =>
      obtain ⟨rfl, -⟩ := List.cons.inj eq
      rcases h.1 with hq | hq <;> cases hq
  | sign cs s =>
      have table : ∀ p ∈ signs, p.1.head? = some '(' → p = (['('], .openParen) := by decide
      obtain ⟨rfl, rfl⟩ := Prod.mk.inj (table _ h (by rw [show cs = '(' :: more from eq]; rfl))
      rfl

/-- A semicolon, or nothing, does not end in a parenthesis. -/
theorem closeParen_not_mem {bs : List Block} (h : ∀ b ∈ bs, b.Valid)
    (eq : tokens bs = [] ∨ tokens bs = [.symbol .semicolon]) : ')' ∉ textOf bs := by
  intro hmem
  obtain ⟨b, hb, hc⟩ := List.mem_flatMap.mp hmem
  have only : ∀ t, b.token? = some t → t = .symbol .semicolon := by
    intro t ht
    have among : t ∈ tokens bs := List.mem_filterMap.mpr ⟨b, hb, ht⟩
    rcases eq with eq | eq
    · rw [eq] at among
      cases among
    · simpa [eq] using among
  cases b with
  | blank c =>
      obtain rfl : ')' = c := by simpa [text] using hc
      exact absurd (show Character.isBlank ')' = true from h _ hb) (by decide)
  | name w => cases only _ rfl
  | number cs x => cases only _ rfl
  | quoted q body s => cases only _ rfl
  | sign cs s =>
      cases only _ rfl
      have table : ∀ p ∈ signs, p.2 = .semicolon → ')' ∉ p.1 := by decide
      exact table _ (h _ hb) rfl hc

/-- A name among tokens is the token of a block. -/
theorem exists_of_name_mem {bs : List Block} {s : String} (h : .name s ∈ tokens bs) :
    ∃ w, .name w ∈ bs ∧ String.ofList w = s := by
  obtain ⟨b, hb, ht⟩ := List.mem_filterMap.mp h
  cases b with
  | name w => exact ⟨w, hb, by simpa [token?] using ht⟩
  | blank c => cases ht
  | number cs x => cases ht
  | quoted q body s => cases ht
  | sign cs s => cases ht

end Block

/-- Name characters before what ends a word are a name. -/
theorem takeWhile_name {w rest : List Char} (hw : isIdentifier w = true) (hrest : EndsWord rest) :
    (w ++ rest).takeWhile isNamePart = w ∧ (w ++ rest).dropWhile isNamePart = rest := by
  refine takeWhile_eq_self ?_ ?_
  · cases w with
    | nil => cases hw
    | cons c cs =>
        simp only [isIdentifier, Bool.and_eq_true, List.all_eq_true] at hw
        exact List.forall_mem_cons.mpr ⟨isNamePart_of_isNameStart hw.1, hw.2⟩
  · intro c more eq
    rw [Bool.eq_false_iff]
    intro part
    have notWord := (hrest c more eq).1
    rw [isWord_of_isNamePart part] at notWord
    cases notWord

/-- The text of a call: a name and arguments in parentheses. -/
def callText (f text : List Char) : List Char := f ++ '(' :: (text ++ [')'])

/-- A text that begins with a name begins with its block. -/
theorem Spelled.exists_front {bs : List Block} (h : Spelled bs) {f rest : List Char}
    (hf : isIdentifier f = true) (ends : EndsWord rest) (eq : Block.textOf bs = f ++ rest) :
    ∃ more, bs = .name f :: more ∧ Block.textOf more = rest := by
  obtain ⟨c, cs, rfl⟩ : ∃ c cs, f = c :: cs := by
    cases f with
    | nil => cases hf
    | cons c cs => exact ⟨c, cs, rfl⟩
  have start : isNameStart c = true := by
    simp only [isIdentifier, Bool.and_eq_true] at hf
    exact hf.1
  cases bs with
  | nil => cases eq
  | cons b bs =>
      obtain ⟨hvalid, hfits, -⟩ := h
      rw [Block.textOf_cons] at eq
      obtain ⟨w, rfl⟩ : ∃ w, b = .name w := by
        obtain ⟨d, more, hd⟩ := List.exists_cons_of_ne_nil (Block.text_ne_nil hvalid)
        rw [hd] at eq
        obtain ⟨rfl, -⟩ := List.cons.inj eq
        exact Block.exists_name hvalid hd start
      -- the name ends where the word does
      have cut := takeWhile_name (w := w) hvalid hfits
      rw [show w ++ Block.textOf bs = _ from eq, (takeWhile_name hf ends).1,
        (takeWhile_name hf ends).2] at cut
      obtain ⟨rfl, hrest⟩ := cut
      exact ⟨bs, rfl, hrest.symm⟩

/-- A text that begins with a parenthesis begins with its block. -/
theorem Spelled.exists_openParen {bs : List Block} (h : Spelled bs) {rest : List Char}
    (eq : Block.textOf bs = '(' :: rest) :
    ∃ more, bs = .sign ['('] .openParen :: more ∧ Block.textOf more = rest := by
  cases bs with
  | nil => cases eq
  | cons b bs =>
      obtain ⟨d, more, hd⟩ := List.exists_cons_of_ne_nil (Block.text_ne_nil h.1)
      rw [Block.textOf_cons, hd] at eq
      obtain ⟨rfl, hmore⟩ := List.cons.inj eq
      obtain rfl := Block.eq_openParen h.1 hd
      cases hd
      exact ⟨bs, rfl, hmore⟩

/-- A text that begins with a name and a parenthesis begins with their blocks. -/
theorem Spelled.exists_call {bs : List Block} (h : Spelled bs) {f rest : List Char}
    (hf : isIdentifier f = true) (eq : Block.textOf bs = f ++ '(' :: rest) :
    ∃ more, bs = .name f :: .sign ['('] .openParen :: more ∧ Block.textOf more = rest := by
  have paren : EndsWord ('(' :: rest) := by
    intro d others split
    cases split
    decide
  obtain ⟨bs, rfl, hrest⟩ := h.exists_front hf paren eq
  obtain ⟨more, rfl, hmore⟩ := Spelled.exists_openParen h.2.2 hrest
  exact ⟨more, rfl, hmore⟩

/-- The blocks of a call that is parsed: its name, a parenthesis, its arguments
with commas between them, and the other parenthesis. -/
theorem exists_blocks_of_call {f text : List Char} {es : List Expr}
    (parsed : Expr.ofChars (callText f text) = .ok (.call (String.ofList f) es)) :
    ∃ (inner : List Block) (items : List ItemPhrase),
      Spelled (.name f :: .sign ['('] .openParen :: (inner ++ [.sign [')'] .closeParen])) ∧
      Block.textOf inner = text ∧ Block.tokens inner = joined (items.map ItemPhrase.tokens) ∧
      (∀ i ∈ items, Derives .conditional i.tokens i.tree) ∧ es = items.map ItemPhrase.tree := by
  obtain ⟨bs, spelled, htext, htokens⟩ := Expr.ofChars_eq_ok_iff.mp parsed
  obtain ⟨body, ends, derived⟩ := Parser.parseTokens_eq_ok_iff.mp htokens
  obtain ⟨n, items, rfl, hitems, hes⟩ := derived.exists_of_call
  have named : isIdentifier f = true := by
    have among : Token.name (String.ofList f) ∈ Block.tokens bs := by
      rcases ends with eq | eq <;> simp [eq]
    obtain ⟨w, hw, same⟩ := Block.exists_of_name_mem among
    obtain rfl := String.ofList_inj.mp same
    exact spelled.valid _ hw
  obtain ⟨more, rfl, hmore⟩ := spelled.exists_call named htext
  have none : n = 0 := by
    cases n with
    | zero => rfl
    | succ n => rcases ends with eq | eq <;> simp [List.replicate_succ] at eq
  subst none
  obtain ⟨tail, htail, hrest⟩ : ∃ tail, (tail = [] ∨ tail = [.symbol .semicolon]) ∧
      Block.tokens more =
        joined (items.map ItemPhrase.tokens) ++ .symbol .closeParen :: tail := by
    rcases ends with eq | eq
    · exact ⟨[], .inl rfl, by simpa using eq⟩
    · exact ⟨_, .inr rfl, by simpa using eq⟩
  obtain ⟨inner, cs, back, rfl, hinner, hback⟩ := Block.split_tokens hrest
  have behind : Spelled (.sign cs .closeParen :: back) := spelled.2.2.2.2.back
  have closing : cs = [')'] := by
    have table : ∀ p ∈ signs, p.2 = .closeParen → p.1 = [')'] := by decide
    exact table _ behind.1 rfl
  subst closing
  rw [Block.textOf_append, Block.textOf_cons, Block.text] at hmore
  -- the text ends in the parenthesis that closes the call, so nothing stands behind it
  have nothing : Block.textOf back = [] := by
    have absent := Block.closeParen_not_mem behind.2.2.valid (hback ▸ htail)
    rcases List.eq_nil_or_concat (Block.textOf back) with hnil | ⟨front, c, eq⟩
    · exact hnil
    · rw [eq, List.concat_eq_append, ← List.append_assoc, ← List.append_assoc] at hmore
      obtain ⟨-, last⟩ := List.append_inj' hmore rfl
      rw [eq, List.concat_eq_append] at absent
      exact absurd (by simp [last]) absent
  obtain rfl := Spelled.eq_nil behind.2.2 nothing
  exact ⟨inner, items, spelled, by simpa using hmore, hinner, hitems, hes⟩

/-- Parts with the tokens of arguments are parsed to them. -/
theorem ofChars_parts {items : List ItemPhrase}
    (hitems : ∀ i ∈ items, Derives .conditional i.tokens i.tree) {parts : List (List Block)}
    (hparts : ∀ part ∈ parts, Spelled part)
    (eq : parts.map Block.tokens = items.map ItemPhrase.tokens) :
    (parts.map fun part => Character.trim (Block.textOf part)).map Expr.ofChars =
      (items.map ItemPhrase.tree).map Except.ok := by
  induction items generalizing parts with
  | nil =>
      obtain rfl : parts = [] := by simpa using eq
      rfl
  | cons i items ih =>
      cases parts with
      | nil => cases eq
      | cons part parts =>
          obtain ⟨hpart, heq⟩ := List.cons.inj eq
          have first := (hparts part List.mem_cons_self).ofChars_trim
            (by rw [hpart]; exact hitems i List.mem_cons_self)
          have rest := ih (fun j hj => hitems j (List.mem_cons_of_mem _ hj))
            (fun p hp => hparts p (List.mem_cons_of_mem _ hp)) heq
          rw [List.map_cons, List.map_cons, first, rest]
          rfl

/-- The arguments of a call that is parsed are the segments of its text: there
are as many, and each is parsed alone to the tree that it has in the call. -/
theorem splitArguments_parse {f text : List Char} {es : List Expr}
    (parsed : Expr.ofChars (callText f text) = .ok (.call (String.ofList f) es)) :
    (splitArguments text).map Expr.ofChars = es.map Except.ok := by
  obtain ⟨inner, items, spelled, rfl, hinner, hitems, rfl⟩ := exists_blocks_of_call parsed
  obtain ⟨parts, hparts, hspelled, hsplit⟩ :=
    splitArguments_textOf hitems spelled.2.2.2.2.front hinner
  rw [hsplit]
  exact ofChars_parts hitems hspelled hparts

/-- The name and the arguments of a tree that is one call. -/
def Expr.call? : Expr → Option (String × List Expr)
  | .call f es => some (f, es)
  | _ => none

theorem Expr.exists_call {r : Except FormulaError Expr} {p : String × List Expr → Bool}
    (h : (r.toOption.bind call?).any p = true) :
    ∃ f es, r = .ok (.call f es) ∧ p (f, es) = true := by
  obtain ⟨⟨f, es⟩, called, holds⟩ := (Option.any_eq_true _ _).mp h
  obtain ⟨e, found, called⟩ := Option.bind_eq_some_iff.mp called
  refine ⟨f, es, ?_, holds⟩
  cases r with
  | error cause => cases found
  | ok tree =>
      cases found
      cases e <;> cases called
      rfl

/-- Three arguments, with brackets and commas in brackets, in an escaped text
and behind a blank that is no space. -/
def nestedArguments : List Char :=
  " MAX(1, [2, 3])\u00a0, \x7b\"k,\": \"a, \\\"b\\\")\", j: x ? [1, (2)] : -y\x7d ,'('".toList

theorem splitArguments_parse_nested : ∃ es : List Expr, es.length = 3 ∧
    Expr.ofChars (callText "F".toList nestedArguments) = .ok (.call "F" es) ∧
    (splitArguments nestedArguments).map Expr.ofChars = es.map Except.ok := by
  obtain ⟨f, es, parsed, shape⟩ := Expr.exists_call
    (r := Expr.ofChars (callText "F".toList nestedArguments))
    (p := fun c => c.1 == "F" && c.2.length == 3) (by decide +kernel)
  simp only [Bool.and_eq_true, beq_iff_eq] at shape
  obtain ⟨rfl, three⟩ := shape
  exact ⟨es, three, parsed, splitArguments_parse parsed⟩

end FormulaSheet
