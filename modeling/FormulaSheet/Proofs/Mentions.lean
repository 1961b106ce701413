import FormulaSheet.Proofs.Hygiene

/-!
# The names in a formula

The references of a formula are looked for in its text, without the tree that
the text is parsed into.  Reserved words, names of functions and everything in
quotes are left out there just as the parser makes no references of them.  An
unquoted key of an object is not told from a reference, though: the references
that are found are those of the tree and the unquoted keys, in one order.

* `Token.mentions` — the names among tokens, keys told from references by the
  symbols around them;
* `Expr.mentions` — the references and the keys of a tree, quoted or not;
* `Derives.lists` — what the tokens of a phrase mention is what its tree
  mentions without some of the keys;
* `Parser.references_of_parseTokens` — so a formula refers to what its tree does;
* `Block.mentions_outline` — what is found in a text is what its tokens mention;
* `Expr.parse_references` — the theorem about texts.
-/

namespace FormulaSheet

/-- A name that a formula mentions as a reference or as a key. -/
inductive Mention where
  | reference (name : String)
  | key (name : String)
deriving DecidableEq

namespace Mention

/-- The name that is mentioned. -/
def name : Mention → String
  | reference s => s
  | key s => s

/-- The name that is referred to. -/
def reference? : Mention → Option String
  | reference s => some s
  | key _ => none

/-- Where nothing is a key all names are referred to. -/
theorem map_name_eq {ms : List Mention} (noKeys : ∀ m ∈ ms, m.reference?.isSome = true) :
    ms.map name = ms.filterMap reference? := by
  induction ms with
  | nil => rfl
  | cons m ms ih =>
      rw [List.forall_mem_cons] at noKeys
      cases m with
      | reference s => exact congrArg (s :: ·) (ih noKeys.2)
      | key s => cases noKeys.1

end Mention

namespace Expr

mutual

/-- The references and the keys of a tree, from left to right. -/
def mentions : Expr → List Mention
  | literal _ => []
  | name s => [.reference s]
  | array items => itemMentions items
  | object fields => fieldMentions fields
  | unary _ e => mentions e
  | binary _ l r => mentions l ++ mentions r
  | and l r => mentions l ++ mentions r
  | or l r => mentions l ++ mentions r
  | conditional c y n => mentions c ++ mentions y ++ mentions n
  | call _ arguments => itemMentions arguments

/-- What the items of a list mention. -/
def itemMentions : List Expr → List Mention
  | [] => []
  | e :: es => mentions e ++ itemMentions es

/-- What fields mention; the key comes before the value. -/
def fieldMentions : List (String × Expr) → List Mention
  | [] => []
  | (k, e) :: fs => .key k :: mentions e ++ fieldMentions fs

end

/-- The names of the identifiers in a tree, from left to right. -/
def names (e : Expr) : List String := e.mentions.filterMap Mention.reference?

/-- The mentions of items are those of each in turn. -/
theorem itemMentions_eq (es : List Expr) : itemMentions es = es.flatMap mentions := by
  induction es with
  | nil => rfl
  | cons e es ih => rw [itemMentions, ih, List.flatMap_cons]

/-- Those of fields are the keys, and what is mentioned in the values. -/
theorem fieldMentions_eq (fs : List (String × Expr)) :
    fieldMentions fs = fs.flatMap fun f => .key f.1 :: mentions f.2 := by
  induction fs with
  | nil => rfl
  | cons f fs ih => rw [fieldMentions, ih, List.flatMap_cons]

end Expr

/-- A name mentions itself unless it is reserved. -/
theorem mentions_nameExpr (s : String) :
    (nameExpr s).mentions = if isReserved s then [] else [.reference s] := by
  rw [isReserved_eq_isSome, nameExpr]
  cases reservedValue? s <;> rfl

/-- An operator mentions what its operands do. -/
theorem mentions_of_infixOp? {k : Nat} {s : Symbol} {build : Expr → Expr → Expr}
    (h : infixOp? k s = some build) (l r : Expr) :
    (build l r).mentions = l.mentions ++ r.mentions := by
  obtain rfl | rfl | ⟨op, rfl⟩ := build_of_infixOp? h <;> rfl

/-- Whether a symbol comes before the key of a field. -/
def Symbol.beginsField : Symbol → Bool
  | openBrace | comma => true
  | _ => false

/-- No operator begins a field. -/
theorem Symbol.beginsField_of_notMem {s : Symbol} (h : s ∉ punctuation) :
    s.beginsField = false := by
  cases s <;> first | rfl | exact absurd (by decide) h

namespace Token

/-- What a name is between the symbol before it, if it is one, and the tokens
after it.  Reserved words and names of functions are not mentioned. -/
def mention? (before : Option Symbol) (s : String) (after : List Token) : Option Mention :=
  if isReserved s || after.head? == some (.symbol .openParen) then none
  else if before.any Symbol.beginsField && after.head? == some (.symbol .colon) then some (.key s)
  else some (.reference s)

/-- The names that tokens mention, from left to right. -/
def mentions (before : Option Symbol) : List Token → List Mention
  | [] => []
  | .name s :: ts => (mention? before s ts).toList ++ mentions none ts
  | .number _ :: ts => mentions none ts
  | .text _ :: ts => mentions none ts
  | .symbol s :: ts => mentions (some s) ts

end Token

/-- The names that a formula's text mentions outside of quotes: its references
and the unquoted keys of its objects. -/
def mentionsOf (formula : String) : List Mention :=
  Token.mentions none (Lexed.ofText formula.toList).tokens

/-- The first mentions are the second without some of the keys. -/
structure Thins (ms all : List Mention) : Prop where
  sublist : ms.Sublist all
  references : ms.filterMap Mention.reference? = all.filterMap Mention.reference?

namespace Thins

variable {ms ns all more : List Mention}

protected theorem refl (ms : List Mention) : Thins ms ms := ⟨.refl ms, rfl⟩

/-- Parts that are thinned are thinned together. -/
theorem append (h : Thins ms all) (h' : Thins ns more) : Thins (ms ++ ns) (all ++ more) where
  sublist := h.sublist.append h'.sublist
  references := by rw [List.filterMap_append, h.references, h'.references, List.filterMap_append]

/-- So are any number of parts. -/
theorem flatMap {ι : Type} {f g : ι → List Mention} {as : List ι}
    (h : ∀ a ∈ as, Thins (f a) (g a)) : Thins (as.flatMap f) (as.flatMap g) := by
  induction as with
  | nil => exact .refl []
  | cons a as ih =>
      rw [List.forall_mem_cons] at h
      exact h.1.append (ih h.2)

end Thins

/-- What can come after a phrase: nothing, or a symbol that neither calls the
name that the phrase may be nor makes a key of it. -/
inductive Follows (before : Option Symbol) : List Token → Prop
  | nothing : Follows before []
  | symbol {s : Symbol} {more : List Token} : s ≠ .openParen →
      (s = .colon → before.any Symbol.beginsField = false) → Follows before (.symbol s :: more)

namespace Follows

variable {before : Option Symbol} {rest : List Token}

/-- What comes after a phrase does not look at what was before it. -/
theorem mentions_eq (h : Follows before rest) (s : Symbol) :
    Token.mentions (some s) rest = Token.mentions none rest := by
  cases h <;> rfl

/-- What comes after a phrase comes after a part of it that no field begins
with. -/
theorem behind (h : Follows before rest) (other : Option Symbol)
    (hother : other.any Symbol.beginsField = false) : Follows other rest := by
  cases h with
  | nothing => exact .nothing
  | symbol notCalled _ => exact .symbol notCalled fun _ => hother

end Follows

/-- Wherever the tokens `ts` are a phrase they mention `ms`. -/
structure Lists (ts : List Token) (ms : List Mention) : Prop where
  mentions_eq : ∀ {before rest}, Follows before rest →
    Token.mentions before (ts ++ rest) = ms ++ Token.mentions none rest

/-- The token of a name lists what its tree mentions. -/
theorem lists_name (s : String) :
    Lists [.name s] (if isReserved s then [] else [.reference s]) := by
  constructor
  intro before rest follows
  have mention : Token.mention? before s rest =
      if isReserved s then none else some (.reference s) := by
    unfold Token.mention?
    cases follows with
    | nothing => simp
    | @symbol t more notCalled notKey =>
        by_cases colon : t = .colon
        · simp [notKey colon, notCalled]
        · simp [notCalled, colon]
  rw [List.singleton_append, Token.mentions, mention]
  split <;> rfl

/-- Between brackets the tokens of each segment mention their own, whether the
bracket or a comma comes before. -/
theorem mentions_joined {ι : Type} {as : List ι} {tokens : ι → List Token}
    {ms : ι → List Mention} (opening : Symbol)
    (h : ∀ a ∈ as, ∀ before ∈ [opening, .comma], ∀ s more, s ≠ .openParen → s ≠ .colon →
      Token.mentions (some before) (tokens a ++ .symbol s :: more) =
        ms a ++ Token.mentions (some s) more)
    {close : Symbol} (notCalled : close ≠ .openParen) (notKey : close ≠ .colon)
    (rest : List Token) :
    Token.mentions (some opening) (joined (as.map tokens) ++ .symbol close :: rest) =
      as.flatMap ms ++ Token.mentions (some close) rest := by
  induction as generalizing opening with
  | nil => rfl
  | cons a as ih =>
      rw [List.forall_mem_cons] at h
      have first := h.1 opening List.mem_cons_self
      cases as with
      | nil => simpa using first close rest notCalled notKey
      | cons b as =>
          have others := ih .comma fun c hc before hbefore =>
            h.2 c hc before (List.mem_cons_of_mem _ (by simpa using hbefore))
          rw [List.map_cons, List.map_cons, joined_cons_cons, ← List.map_cons,
            List.append_assoc, List.cons_append, first _ _ (by decide) (by decide), others]
          simp only [List.flatMap_cons, List.append_assoc]

namespace Lists

variable {ts us : List Token} {ms ns : List Mention}

/-- A phrase before a symbol that neither calls it nor makes a key of it. -/
theorem symbol (h : Lists ts ms) {before : Option Symbol} {s : Symbol} (more : List Token)
    (notCalled : s ≠ .openParen) (notKey : s ≠ .colon) :
    Token.mentions before (ts ++ .symbol s :: more) = ms ++ Token.mentions (some s) more :=
  h.mentions_eq (.symbol notCalled fun eq => absurd eq notKey)

/-- A phrase before a colon that no field begins with. -/
theorem colon (h : Lists ts ms) {before : Option Symbol} (more : List Token)
    (hbefore : before.any Symbol.beginsField = false) :
    Token.mentions before (ts ++ .symbol .colon :: more) =
      ms ++ Token.mentions (some .colon) more :=
  h.mentions_eq (.symbol (by decide) fun _ => hbefore)

/-- Two phrases with an operator between them. -/
theorem between (h : Lists ts ms) (h' : Lists us ns) {s : Symbol} (notCalled : s ≠ .openParen)
    (notKey : s ≠ .colon) (hs : s.beginsField = false) :
    Lists (ts ++ .symbol s :: us) (ms ++ ns) := by
  constructor
  intro before rest follows
  rw [List.append_assoc, List.cons_append, h.symbol _ notCalled notKey,
    h'.mentions_eq (follows.behind (some s) hs), List.append_assoc]

/-- Something between brackets. -/
theorem brackets {opening close : Symbol} {inner : List Token}
    (h : ∀ rest, Token.mentions (some opening) (inner ++ .symbol close :: rest) =
      ms ++ Token.mentions (some close) rest) :
    Lists (.symbol opening :: (inner ++ [.symbol close])) ms := by
  constructor
  intro before rest follows
  rw [List.cons_append, List.append_assoc, Token.mentions]
  exact (h rest).trans (by rw [follows.mentions_eq])

/-- A name that is called is not mentioned. -/
theorem call (h : Lists (.symbol .openParen :: ts) ms) (s : String) :
    Lists (.name s :: .symbol .openParen :: ts) ms := by
  constructor
  intro before rest follows
  have called : Token.mention? before s (.symbol .openParen :: ts ++ rest) = none := by
    simp [Token.mention?]
  rw [List.cons_append, Token.mentions, called]
  exact h.mentions_eq (follows.behind none rfl)

end Lists

/-- What the key of a field mentions. -/
def FieldPhrase.keyMention (f : FieldPhrase) : List Mention :=
  match f.key with
  | .name k => if isReserved k then [] else [.key k]
  | _ => []

namespace FieldPhrase

variable {f : FieldPhrase}

/-- A key is mentioned by its token or not at all. -/
theorem thins_keyMention (hkey : keyOf? f.key = some f.name) :
    Thins f.keyMention [.key f.name] := by
  unfold keyMention
  split
  · rename_i k eq
    rw [eq] at hkey
    cases hkey
    split
    · exact ⟨List.nil_sublist _, rfl⟩
    · exact .refl _
  · exact ⟨List.nil_sublist _, rfl⟩

/-- A field mentions its key and what its value does. -/
theorem mentions_whole (hkey : keyOf? f.key = some f.name) {ms : List Mention}
    (h : Lists f.tokens ms) {before : Symbol} (begins : before.beginsField = true) {s : Symbol}
    (more : List Token) (notCalled : s ≠ .openParen) (notKey : s ≠ .colon) :
    Token.mentions (some before) (f.whole ++ .symbol s :: more) =
      f.keyMention ++ ms ++ Token.mentions (some s) more := by
  have value : Token.mentions (some .colon) (f.tokens ++ .symbol s :: more) =
      ms ++ Token.mentions (some s) more := h.symbol more notCalled notKey
  rw [whole, keyMention]
  cases key : f.key with
  | name k =>
      simp only [List.cons_append, Token.mentions, value, Token.mention?, List.head?_cons]
      by_cases reserved : isReserved k = true <;> simp [reserved, begins]
  | number x => simp only [List.cons_append, Token.mentions, value, List.nil_append]
  | text s => simp only [List.cons_append, Token.mentions, value, List.nil_append]
  | symbol s => rw [key] at hkey; cases hkey

end FieldPhrase

/-- The items between two brackets mention theirs one after another. -/
theorem lists_items {items : List ItemPhrase}
    (h : ∀ i ∈ items, ∃ ms, Lists i.tokens ms ∧ Thins ms i.tree.mentions)
    (opening close : Symbol) (notCalled : close ≠ .openParen) (notKey : close ≠ .colon) :
    ∃ ms, Lists (.symbol opening :: (joined (items.map ItemPhrase.tokens) ++ [.symbol close])) ms ∧
      Thins ms (Expr.itemMentions (items.map ItemPhrase.tree)) := by
  obtain ⟨ps, rfl, hps⟩ := exists_pairs h
  refine ⟨ps.flatMap (·.2), ?_, ?_⟩
  · refine .brackets fun rest => ?_
    rw [List.map_map]
    refine mentions_joined opening ?_ notCalled notKey rest
    exact fun p hp _ _ s more => (hps p hp).1.symbol more
  · rw [Expr.itemMentions_eq, List.map_map, List.flatMap_map]
    exact .flatMap fun p hp => (hps p hp).2

/-- The fields of an object mention their keys and what their values do. -/
theorem lists_fields {fields : List FieldPhrase}
    (keys : ∀ f ∈ fields, keyOf? f.key = some f.name)
    (h : ∀ f ∈ fields, ∃ ms, Lists f.tokens ms ∧ Thins ms f.tree.mentions) :
    ∃ ms, Lists (.symbol .openBrace ::
        (joined (fields.map FieldPhrase.whole) ++ [.symbol .closeBrace])) ms ∧
      Thins ms (Expr.fieldMentions (fields.map FieldPhrase.field)) := by
  obtain ⟨ps, rfl, hps⟩ := exists_pairs h
  have hkey : ∀ p ∈ ps, keyOf? p.1.key = some p.1.name :=
    fun p hp => keys p.1 (List.mem_map_of_mem hp)
  refine ⟨ps.flatMap fun p => p.1.keyMention ++ p.2, ?_, ?_⟩
  · refine .brackets fun rest => ?_
    rw [List.map_map]
    refine mentions_joined .openBrace ?_ (by decide) (by decide) rest
    intro p hp before hbefore s more
    have begins : before.beginsField = true := by
      rcases List.mem_pair.mp hbefore with rfl | rfl <;> rfl
    exact FieldPhrase.mentions_whole (hkey p hp) (hps p hp).1 begins more
  · rw [Expr.fieldMentions_eq, List.map_map, List.flatMap_map]
    exact .flatMap fun p hp => (FieldPhrase.thins_keyMention (hkey p hp)).append (hps p hp).2

/-- **A phrase mentions what its tree does**, without the keys that are not
names or that are reserved. -/
theorem Derives.lists {p : Phrase} {ts : List Token} {e : Expr} (h : Derives p ts e) :
    ∃ ms, Lists ts ms ∧ Thins ms e.mentions := by
  induction h with
  | plain _ ih => exact ih
  | @choice ts us vs c y n _ _ _ ihc ihy ihn =>
      obtain ⟨mc, hc, thinsC⟩ := ihc
      obtain ⟨my, hy, thinsY⟩ := ihy
      obtain ⟨mn, hn, thinsN⟩ := ihn
      refine ⟨mc ++ my ++ mn, ⟨?_⟩, (thinsC.append thinsY).append thinsN⟩
      intro before rest follows
      have eq : ts ++ .symbol .question :: (us ++ .symbol .colon :: vs) ++ rest =
          ts ++ .symbol .question :: (us ++ .symbol .colon :: (vs ++ rest)) := by simp
      -- a name before the colon is no key, as it is behind the question mark
      rw [eq, hc.symbol _ (by decide) (by decide), hy.colon _ rfl,
        hn.mentions_eq (follows.behind _ rfl)]
      simp only [List.append_assoc]
  | tighter _ _ ih => exact ih
  | binary hop _ _ ihl ihr =>
      obtain ⟨ml, hl, thinsL⟩ := ihl
      obtain ⟨mr, hr, thinsR⟩ := ihr
      have beginsNone := Symbol.beginsField_of_notMem (notMem_punctuation_of_infixOp? hop)
      refine ⟨ml ++ mr, hl.between hr (ne_of_infixOp? hop (by decide))
        (ne_of_infixOp? hop (by decide)) beginsNone, ?_⟩
      rw [mentions_of_infixOp? hop]
      exact thinsL.append thinsR
  | top _ ih => exact ih
  | @sign s op ts e hop _ ih =>
      obtain ⟨ms, hms, thins⟩ := ih
      refine ⟨ms, ⟨fun follows => hms.mentions_eq (follows.behind _ ?_)⟩, thins⟩
      cases s <;> first | rfl | cases hop
  | base _ ih => exact ih
  | number x => exact ⟨[], ⟨fun _ => rfl⟩, .refl []⟩
  | text s => exact ⟨[], ⟨fun _ => rfl⟩, .refl []⟩
  | name s =>
      refine ⟨_, lists_name s, ?_⟩
      rw [mentions_nameExpr]
      exact .refl _
  | call s _ ih =>
      obtain ⟨ms, hms, thins⟩ := lists_items ih .openParen .closeParen (by decide) (by decide)
      exact ⟨ms, hms.call s, thins⟩
  | paren _ ih =>
      obtain ⟨ms, hms, thins⟩ := ih
      exact ⟨ms, .brackets fun rest => hms.symbol rest (by decide) (by decide), thins⟩
  | array _ ih => exact lists_items ih .openBracket .closeBracket (by decide) (by decide)
  | object keys _ ih => exact lists_fields keys ih

/-- **The names that a formula refers to are those of its tree**, also where more
semicolons stand behind it. -/
theorem Parser.references_of_parseTokens {ts : List Token} {e : Expr}
    (h : parseTokens ts = .ok e) (k : Nat) :
    (Token.mentions none (ts ++ List.replicate k (.symbol .semicolon))).filterMap
      Mention.reference? = e.names := by
  have semicolons : ∀ (before : Option Symbol) (k : Nat),
      Token.mentions before (List.replicate k (.symbol .semicolon)) = [] := by
    intro before k
    induction k generalizing before with
    | zero => rfl
    | succ k ih => exact ih _
  obtain ⟨body, ends, derived⟩ := parseTokens_eq_ok_iff.mp h
  obtain ⟨ms, lists, thins⟩ := derived.lists
  obtain ⟨j, whole⟩ : ∃ j, ts ++ List.replicate k (.symbol .semicolon) =
      body ++ List.replicate j (.symbol .semicolon) := by
    rcases ends with rfl | rfl
    · exact ⟨k, rfl⟩
    · exact ⟨k + 1, by simp [List.replicate_succ]⟩
  have follows : Follows none (List.replicate j (.symbol .semicolon)) := by
    cases j with
    | zero => exact .nothing
    | succ j => exact .symbol (by decide) (by decide)
  rw [whole, lists.mentions_eq follows, semicolons, List.append_nil, thins.references, Expr.names]

/-- Reference or key, a name is mentioned unless it is reserved or called. -/
theorem Token.name_mention? (before : Option Symbol) (s : String) (after : List Token) :
    (mention? before s after).map Mention.name =
      if isReserved s || after.head? == some (.symbol .openParen) then none else some s := by
  unfold mention?
  split_ifs <;> rfl

/-- The references found in the outline of blocks are the names that their
tokens mention, unquoted keys among them. -/
theorem Block.mentions_outline (before : Option Symbol) (bs : List Block) :
    (Block.outline bs).mentions =
      (Token.mentions before (Block.tokens bs)).map Mention.name := by
  induction bs generalizing before with
  | nil => rfl
  | cons b bs ih =>
      rw [Block.outline, Outline.mentions_append]
      cases b with
      | blank c => exact ih before
      | name w =>
          have called : Block.opens bs =
              ((Block.tokens bs).head? == some (.symbol .openParen)) := by
            rw [Bool.eq_iff_iff, Block.opens_iff, beq_iff_eq]
          rw [Block.tokens_name, Token.mentions, List.map_append, ih none, ← Option.toList_map,
            Token.name_mention?, ← called]
          congr 1
          rw [Block.pieces, Block.namePiece]
          by_cases reserved : isReserved (String.ofList w) = true
          · rw [if_pos reserved, reserved]
            rfl
          · by_cases hcalled : Block.opens bs = true
            · rw [if_neg reserved, if_pos hcalled, hcalled, Bool.or_true]
              rfl
            · rw [if_neg reserved, if_neg hcalled, if_neg (by simp [reserved, hcalled])]
              rfl
      | number cs x => exact (congrArg (· ++ _) (Outline.mentions_plain _)).trans (ih none)
      | quoted q body t => exact (congrArg (· ++ _) (Outline.mentions_plain _)).trans (ih none)
      | sign cs t => exact (congrArg (· ++ _) (Outline.mentions_plain _)).trans (ih (some t))

/-- **The references of a formula are the identifiers of its tree and the
unquoted keys of its objects**, each once, in the order in which they first
occur.  Names of functions, reserved words and what stands in quotes are not
among them.  Those mentions that are not keys are just the identifiers of the
tree, so where no key is unquoted the references are these alone. -/
theorem Expr.parse_references {formula : String} {e : Expr}
    (parsed : Expr.parse formula = .ok e) :
    (Outline.ofText formula.toList).references =
        ((mentionsOf formula).map Mention.name).eraseDups ∧
      (mentionsOf formula).Sublist e.mentions ∧
      (mentionsOf formula).filterMap Mention.reference? = e.names ∧
      ((∀ m ∈ mentionsOf formula, m.reference?.isSome = true) →
        (Outline.ofText formula.toList).references = e.names.eraseDups) := by
  obtain ⟨bs, spelled, text_eq, tokens⟩ := Expr.ofChars_eq_ok_iff.mp parsed
  obtain ⟨body, ends, derived⟩ := Parser.parseTokens_eq_ok_iff.mp tokens
  obtain ⟨ms, lists, thins⟩ := derived.lists
  have own : mentionsOf formula = Token.mentions none (Block.tokens bs) := by
    rw [mentionsOf, ← text_eq, spelled.lexed.1]
  have all : mentionsOf formula = ms := by
    rcases ends with ends | ends
    · have whole : Token.mentions none (body ++ []) = ms ++ [] := lists.mentions_eq .nothing
      rw [own, ends, ← List.append_nil body, whole, List.append_nil]
    · have whole : Token.mentions none (body ++ [.symbol .semicolon]) = ms ++ [] :=
        lists.symbol [] (by decide) (by decide)
      rw [own, ends, whole, List.append_nil]
  have found : (Outline.ofText formula.toList).references =
      ((mentionsOf formula).map Mention.name).eraseDups := by
    rw [Outline.references_eq, ← text_eq, spelled.outline, Block.mentions_outline none, own]
  have names : (mentionsOf formula).filterMap Mention.reference? = e.names := by
    rw [all, thins.references, Expr.names]
  refine ⟨found, all ▸ thins.sublist, names, ?_⟩
  intro noKeys
  rw [found, ← names, Mention.map_name_eq noKeys]

/-- An unquoted key, a quoted one and a reserved one; a function with a name that
is also a reference; a name in quotes. -/
def labelled : String :=
  "\x7blabel: title, \"size\": MAX (max, 'title'), true: MAX ? title : 1e5\x7d;"

/-- The unquoted key is listed with the references, the others are not. -/
theorem parse_references_labelled : ∃ e, Expr.parse labelled = .ok e ∧
    (Outline.ofText labelled.toList).references = ["label", "title", "max", "MAX"] ∧
    e.names = ["title", "max", "MAX", "title"] := by
  have accepted : (Expr.parse labelled).isOk = true := by decide +kernel
  have mentioned : mentionsOf labelled = [.key "label", .reference "title", .reference "max",
      .reference "MAX", .reference "title"] := by decide +kernel
  cases parsed : Expr.parse labelled with
  | error f => rw [parsed] at accepted; cases accepted
  | ok e =>
      obtain ⟨found, _, names, _⟩ := Expr.parse_references parsed
      rw [mentioned] at found names
      exact ⟨e, rfl, found.trans (by decide), names.symm⟩

/-- The key of this object is found as a reference, though there is no
identifier in the tree. -/
theorem references_of_bareKey : ∃ e, Expr.parse "\x7ba: 1\x7d" = .ok e ∧
    (Outline.ofText "\x7ba: 1\x7d".toList).references ≠ e.names.eraseDups := by
  have names : (Expr.parse "\x7ba: 1\x7d").toOption.map Expr.names = some [] := by decide +kernel
  have found : (Outline.ofText "\x7ba: 1\x7d".toList).references = ["a"] := by decide +kernel
  cases parsed : Expr.parse "\x7ba: 1\x7d" with
  | error f => rw [parsed] at names; cases names
  | ok e =>
      rw [parsed] at names
      refine ⟨e, rfl, ?_⟩
      rw [found, Option.some.inj names]
      nofun

end FormulaSheet
