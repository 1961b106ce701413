import FormulaSheet.Proofs.Application
import FormulaSheet.Proofs.Mentions
import FormulaSheet.Proofs.Rebuilding

/-!
# Formulas written as statements

The body of a definition may be a formula or a statement that returns one.
The word and the semicolons are taken off the text before it is parsed, while
`return` is a name like any other in a formula.  A statement means what its
formula means, whatever names are in it.  Only a formula that begins like a
statement is another as a body: `return - 1` takes one from a parameter, and
returns the negative number.

* `Spelled.exists_unended` — the blocks of a text without the semicolons at its
  end;
* `Expr.ofChars_statementBody_return` — a formula is read from the statements
  that return it;
* `Expr.ofChars_statementBody`, `Expr.ofChars_isStatement` — a formula alone is
  read as itself just if it does not begin like a statement;
* `Library.accepts_statement` — the definitions.
-/

namespace FormulaSheet

/-- The last token is that of what is behind a token. -/
theorem getLast?_append_token {us : List Token} (h : us ≠ []) (ts : List Token) (t : Token) :
    (ts ++ t :: us).getLast? = us.getLast? := by
  rw [List.append_cons, List.getLast?_append_of_ne_nil _ h]

/-- A phrase does not end with a semicolon. -/
theorem Derives.getLast?_ne_semicolon {p : Phrase} {ts : List Token} {e : Expr}
    (h : Derives p ts e) : ts.getLast? ≠ some (.symbol .semicolon) := by
  induction h with
  | plain _ ih | tighter _ _ ih | top _ ih | base _ ih => exact ih
  | choice _ _ hn _ _ ih =>
      rwa [getLast?_append_token (by simp), getLast?_append_token hn.ne_nil]
  | binary _ _ hr _ ih => rwa [getLast?_append_token hr.ne_nil]
  | sign _ h ih => exact getLast?_append_token h.ne_nil [] _ ▸ ih
  | number x => simp
  | text s => simp
  | name s => simp
  | call s _ _ => simp [List.getLast?_cons]
  | paren _ _ => simp [List.getLast?_cons]
  | array _ _ => simp [List.getLast?_cons]
  | object _ _ _ => simp [List.getLast?_cons]

/-- A formula with its semicolon is one without it, and a text that is a formula
with more semicolons is one with fewer. -/
theorem Parser.parseTokens_of_semicolons {ts : List Token} {e : Expr} {k : Nat}
    (h : parseTokens (ts ++ List.replicate k (.symbol .semicolon)) = .ok e) :
    parseTokens ts = .ok e := by
  cases k with
  | zero => simpa using h
  | succ k =>
      rw [List.replicate_succ', ← List.append_assoc] at h
      obtain ⟨body, ends | ends, derived⟩ := parseTokens_eq_ok_iff.mp h
      · exact absurd (ends ▸ List.getLast?_concat) derived.getLast?_ne_semicolon
      · obtain ⟨rest, -⟩ := List.append_inj' ends rfl
        cases k with
        | zero => exact parseTokens_eq_ok_iff.mpr ⟨body, .inl (by simpa using rest), derived⟩
        | succ k =>
            rw [List.replicate_succ', ← List.append_assoc] at rest
            exact absurd (rest ▸ List.getLast?_concat) derived.getLast?_ne_semicolon

namespace Block

/-- A block that ends with a semicolon is one. -/
theorem eq_semicolon {b : Block} (h : b.Valid) {more : List Char} (eq : b.text = more ++ [';']) :
    b = .sign [';'] .semicolon := by
  have last : ';' ∈ b.text := by simp [eq]
  cases b with
  | blank c =>
      obtain rfl : ';' = c := by simpa [text] using last
      exact absurd (show Character.isBlank ';' = true from h) (by decide)
  | name w => exact absurd (isWord_of_isIdentifier h _ last) (by decide)
  | number cs x =>
      rcases numeral_chars h.1 _ last with digit | other
      · exact absurd digit (by decide)
      · exact absurd other (by decide)
  | quoted q body s =>
      obtain ⟨-, closing⟩ := List.append_inj' (show (q :: body) ++ [q] = more ++ [';'] from eq) rfl
      obtain rfl : q = ';' := (List.cons.inj closing).1
      rcases h.1 with hq | hq <;> cases hq
  | sign cs s =>
      have table : ∀ p ∈ signs, ';' ∈ p.1 → p = ([';'], .semicolon) := by decide
      obtain ⟨rfl, rfl⟩ := Prod.mk.inj (table _ h last)
      rfl

end Block

namespace Character

theorem dropEndWhile_concat (p : Char → Bool) (cs : List Char) (c : Char) :
    dropEndWhile p (cs ++ [c]) = if p c then dropEndWhile p cs else cs ++ [c] := by
  cases hc : p c <;> simp [dropEndWhile, hc]

/-- What is dropped from the end of a text is dropped from the end of a part,
unless the part is all dropped. -/
theorem dropEndWhile_append {p : Char → Bool} (cs : List Char) {ds : List Char}
    (h : dropEndWhile p ds ≠ []) : dropEndWhile p (cs ++ ds) = cs ++ dropEndWhile p ds := by
  unfold dropEndWhile at *
  rw [List.reverse_append, List.dropWhile_append, if_neg (by simpa using h), List.reverse_append,
    List.reverse_reverse]

/-- A text before a character that is no blank is trimmed at its start. -/
theorem trim_concat (cs : List Char) {c : Char} (h : isBlank c = false) :
    trim (cs ++ [c]) = trimStart cs ++ [c] := by
  have start : trimStart (cs ++ [c]) = trimStart cs ++ [c] := by
    rw [trimStart, List.dropWhile_append]
    split
    · rename_i none
      rw [trimStart, List.isEmpty_iff.mp none, List.dropWhile_cons_of_neg (by simp [h])]
      rfl
    · rfl
  rw [trim, start, trimEnd, dropEndWhile_concat, if_neg (by simp [h])]

end Character

namespace Spelled

/-- A spelled text without the semicolons behind it. -/
theorem exists_withoutSemicolons {bs : List Block} (h : Spelled bs) :
    ∃ core k, Spelled core ∧
      Block.textOf core = Character.dropEndWhile (· == ';') (Block.textOf bs) ∧
      Block.tokens bs = Block.tokens core ++ List.replicate k (.symbol .semicolon) := by
  induction bs using List.reverseRecOn with
  | nil => exact ⟨[], 0, trivial, rfl, rfl⟩
  | append_singleton bs b ih =>
      have alone : Spelled [b] := h.back
      obtain ⟨more, c, eq⟩ := List.eq_nil_or_concat' b.text |>.resolve_left
        (Block.text_ne_nil alone.1)
      have text : Block.textOf (bs ++ [b]) = (Block.textOf bs ++ more) ++ [c] := by
        simp [eq]
      by_cases semicolon : c = ';'
      · subst semicolon
        obtain rfl := Block.eq_semicolon alone.1 eq
        obtain ⟨core, k, hcore, htext, htokens⟩ := ih h.front
        obtain rfl : more = [] := by simpa [Block.text] using eq
        refine ⟨core, k + 1, hcore, ?_, ?_⟩
        · rw [htext, text, Character.dropEndWhile_concat, if_pos (by rfl), List.append_nil]
        · rw [Block.tokens_append, htokens, List.replicate_succ', List.append_assoc]
          rfl
      · refine ⟨bs ++ [b], 0, h, ?_, by simp⟩
        rw [text, Character.dropEndWhile_concat, if_neg (by simpa using semicolon)]

/-- A spelled text is parsed as its tokens are. -/
theorem ofChars_eq_ok_iff {bs : List Block} (h : Spelled bs) {e : Expr} :
    Expr.ofChars (Block.textOf bs) = .ok e ↔ Parser.parseTokens (Block.tokens bs) = .ok e := by
  constructor
  · intro parsed
    obtain ⟨cs, spelled, same, tokens⟩ := Expr.ofChars_eq_ok_iff.mp parsed
    rw [← h.lexed.1, ← same, spelled.lexed.1]
    exact tokens
  · exact fun parsed => Expr.ofChars_eq_ok_iff.mpr ⟨bs, h, rfl, parsed⟩

end Spelled

/-- A text without blanks around it and without the semicolons at its end. -/
def unended (cs : List Char) : List Char :=
  Character.trimEnd (Character.dropEndWhile (· == ';') (Character.trim cs))

theorem unended_blank {c : Char} (cs : List Char) (h : Character.isBlank c = true) :
    unended (c :: cs) = unended cs := by
  have start : Character.trimStart (c :: cs) = Character.trimStart cs :=
    List.dropWhile_cons_of_pos h
  rw [unended, unended, Character.trim, Character.trim, start]

/-- The blocks of a text without the semicolons at its end. -/
theorem Spelled.exists_unended {bs : List Block} (h : Spelled bs) :
    ∃ core k, Spelled core ∧ Block.textOf core = unended (Block.textOf bs) ∧
      Block.tokens bs = Block.tokens core ++ List.replicate k (.symbol .semicolon) := by
  obtain ⟨trimmed, htrimmed, trimmedText, trimmedTokens⟩ := h.exists_trimmed
  obtain ⟨front, k, hfront, frontText, frontTokens⟩ := htrimmed.exists_withoutSemicolons
  obtain ⟨core, hcore, coreText, coreTokens⟩ := hfront.exists_trimEnd
  refine ⟨core, k, hcore, ?_, by rw [← trimmedTokens, frontTokens, coreTokens]⟩
  rw [coreText, frontText, trimmedText, unended]

namespace Expr

variable {cs : List Char} {e : Expr}

theorem ofChars_trimStart (parsed : ofChars cs = .ok e) :
    ofChars (Character.trimStart cs) = .ok e := by
  obtain ⟨bs, spelled, rfl, tokens⟩ := ofChars_eq_ok_iff.mp parsed
  obtain ⟨core, hcore, htext, htokens⟩ := spelled.exists_trimStart
  exact ofChars_eq_ok_iff.mpr ⟨core, hcore, htext, htokens ▸ tokens⟩

theorem ofChars_trimEnd (parsed : ofChars cs = .ok e) :
    ofChars (Character.trimEnd cs) = .ok e := by
  obtain ⟨bs, spelled, rfl, tokens⟩ := ofChars_eq_ok_iff.mp parsed
  obtain ⟨core, hcore, htext, htokens⟩ := spelled.exists_trimEnd
  exact ofChars_eq_ok_iff.mpr ⟨core, hcore, htext, htokens ▸ tokens⟩

theorem ofChars_trim (parsed : ofChars cs = .ok e) : ofChars (Character.trim cs) = .ok e :=
  ofChars_trimEnd (ofChars_trimStart parsed)

theorem ofChars_withoutSemicolons (parsed : ofChars cs = .ok e) :
    ofChars (Character.dropEndWhile (· == ';') cs) = .ok e := by
  obtain ⟨bs, spelled, rfl, tokens⟩ := ofChars_eq_ok_iff.mp parsed
  obtain ⟨core, k, hcore, htext, htokens⟩ := spelled.exists_withoutSemicolons
  exact ofChars_eq_ok_iff.mpr
    ⟨core, hcore, htext, Parser.parseTokens_of_semicolons (htokens ▸ tokens)⟩

theorem ofChars_unended (parsed : ofChars cs = .ok e) : ofChars (unended cs) = .ok e :=
  ofChars_trimEnd (ofChars_withoutSemicolons (ofChars_trim parsed))

end Expr

/-- A text that begins with the word `return` and a blank, perhaps behind other
blanks. -/
def IsStatement (text : List Char) : Prop :=
  ∃ c rest, Character.trim text = "return".toList ++ c :: rest ∧ Character.isBlank c = true

/-- What is behind the word is the formula in a body. -/
theorem statementBody_of_word {body rest : List Char} {c : Char}
    (eq : Character.trim body = "return".toList ++ c :: rest)
    (ends : (Character.isBlank c || c == '(') = true) :
    statementBody body = unended (c :: rest) := by
  unfold statementBody
  dsimp only
  split
  · rename_i d cs eq'
    have same : "return".toList ++ c :: rest = "return".toList ++ d :: cs := eq.symm.trans eq'
    obtain ⟨rfl, rfl⟩ := List.cons.inj (List.append_cancel_left same)
    rw [if_pos ends]
    rfl
  · rename_i others
    exact absurd eq (others c rest)

/-- A body without the word is the formula. -/
theorem statementBody_of_noWord {body : List Char}
    (noWord : ∀ c rest, Character.trim body = "return".toList ++ c :: rest →
      (Character.isBlank c || c == '(') = false) :
    statementBody body = unended (Character.trim body) := by
  unfold statementBody
  dsimp only
  split
  · rename_i c rest eq
    rw [if_neg (by simp [noWord c rest eq])]
    rfl
  · rfl

/-- A formula is read from the statements that return it. -/
theorem Expr.ofChars_statementBody_return {text : List Char} {e : Expr}
    (parsed : ofChars text = .ok e) :
    ofChars (statementBody ("return ".toList ++ text)) = .ok e ∧
      ofChars (statementBody ("return ".toList ++ text ++ [';'])) = .ok e := by
  have word : "return ".toList = "return".toList ++ [' '] := by decide
  constructor
  · have ended := ofChars_trimEnd parsed
    have notNil : Character.trimEnd text ≠ [] := by
      intro nil
      rw [nil] at ended
      cases ended
    have trimmed : Character.trim ("return ".toList ++ text) =
        "return".toList ++ ' ' :: Character.trimEnd text :=
      Character.dropEndWhile_append "return ".toList notNil
    rw [statementBody_of_word trimmed (by decide), unended_blank _ (by decide)]
    exact ofChars_unended ended
  · have trimmed : Character.trim ("return ".toList ++ text ++ [';']) =
        "return".toList ++ ' ' :: (text ++ [';']) := by
      exact Character.trim_concat ("return ".toList ++ text) (by decide)
    rw [statementBody_of_word trimmed (by decide), unended_blank _ (by decide), unended,
      Character.trim_concat _ (by decide), Character.dropEndWhile_concat, if_pos (by rfl)]
    exact ofChars_trimEnd (ofChars_withoutSemicolons (ofChars_trimStart parsed))

/-- A phrase that begins with a name and a parenthesis has a call in its tree. -/
theorem Derives.exists_call_mem {p : Phrase} {ts : List Token} {e : Expr} (h : Derives p ts e)
    {f : String} {rest : List Token} (eq : ts = .name f :: .symbol .openParen :: rest) :
    ∃ args, .call f args ∈ e.subterms := by
  induction h generalizing rest with
  | plain _ ih | tighter _ _ ih | top _ ih | base _ ih => exact ih eq
  | choice _ _ _ ihc _ _ =>
      obtain ⟨rest', here, -⟩ | ⟨pre, -, nothing⟩ := split_call (by decide)
        (eq.trans (List.nil_append _).symm)
      · obtain ⟨args, among⟩ := ihc here
        exact ⟨args, by simp [Expr.subterms, among]⟩
      · simp at nothing
  | @binary k s build ts us l r hop _ _ ihl _ =>
      obtain ⟨rest', here, -⟩ | ⟨pre, -, nothing⟩ := split_call (ne_of_infixOp? hop (by decide))
        (eq.trans (List.nil_append _).symm)
      · obtain ⟨args, among⟩ := ihl here
        exact ⟨args, by simp [subterms_of_infixOp? hop, among]⟩
      · simp at nothing
  | call s _ _ =>
      obtain ⟨rfl, -⟩ : s = f ∧ _ := by simpa using eq
      exact ⟨_, List.mem_cons_self⟩
  | sign _ _ _ | number _ | text _ | name _ | paren _ _ | array _ _ | object _ _ _ => cases eq

/-- A formula without calls does not begin with one. -/
theorem Parser.head?_ne_openParen {ts : List Token} {f : String} {e : Expr}
    (h : parseTokens (.name f :: ts) = .ok e) (noCall : e.callNames = []) :
    ts.head? ≠ some (.symbol .openParen) := by
  intro opens
  obtain ⟨rest, rfl⟩ := List.head?_eq_some_iff.mp opens
  obtain ⟨body, ends, derived⟩ := parseTokens_eq_ok_iff.mp h
  obtain ⟨rest', eq⟩ : ∃ rest', body = .name f :: .symbol .openParen :: rest' := by
    rcases ends with rfl | ends
    · exact ⟨rest, rfl⟩
    · obtain ⟨rest', here, -⟩ := split_last (by decide)
        (ends.symm.trans (List.nil_append _).symm)
      exact ⟨rest', here⟩
  obtain ⟨args, among⟩ := derived.exists_call_mem eq
  have called := Expr.mem_callNames_iff.mpr ⟨f, args, among, rfl⟩
  rw [noCall] at called
  cases called

/-- What ends the word of a statement ends a name. -/
theorem endsWord_of_ends {c : Char} {rest : List Char}
    (ends : (Character.isBlank c || c == '(') = true) : EndsWord (c :: rest) := by
  intro d more split
  cases split
  rcases Bool.or_eq_true_iff.mp ends with blank | paren
  · refine ⟨Character.isWord_of_isBlank blank, ?_⟩
    rintro rfl
    exact absurd blank (by decide)
  · rw [beq_iff_eq.mp paren]
    decide

/-- The blocks of a formula that begins with the word `return`. -/
theorem exists_blocks_of_word {text rest : List Char} {e : Expr} {c : Char}
    (parsed : Expr.ofChars text = .ok e)
    (eq : Character.trim text = "return".toList ++ c :: rest)
    (ends : (Character.isBlank c || c == '(') = true) :
    ∃ bs, Spelled bs ∧ Block.textOf bs = c :: rest ∧
      Parser.parseTokens (.name "return" :: Block.tokens bs) = .ok e := by
  have whole := Expr.ofChars_trim parsed
  rw [eq] at whole
  obtain ⟨bs, spelled, text_eq, tokens⟩ := Expr.ofChars_eq_ok_iff.mp whole
  obtain ⟨more, rfl, hmore⟩ := spelled.exists_front (by decide) (endsWord_of_ends ends) text_eq
  exact ⟨more, spelled.2.2, hmore, tokens⟩

namespace Expr

variable {text : List Char} {e : Expr}

/-- A formula without calls that does not begin like a statement is read from a
body. -/
theorem ofChars_statementBody (parsed : ofChars text = .ok e) (noCall : e.callNames = [])
    (formula : ¬ IsStatement text) : ofChars (statementBody text) = .ok e := by
  rw [statementBody_of_noWord]
  · exact ofChars_unended (ofChars_trim parsed)
  · intro c rest eq
    rw [Bool.eq_false_iff]
    intro ends
    have paren : c = '(' := by
      rcases Bool.or_eq_true_iff.mp ends with blank | paren
      · exact absurd ⟨c, rest, eq, blank⟩ formula
      · exact beq_iff_eq.mp paren
    obtain ⟨bs, spelled, text_eq, tokens⟩ := exists_blocks_of_word parsed eq ends
    obtain ⟨more, rfl, -⟩ := spelled.exists_openParen (paren ▸ text_eq)
    exact Parser.head?_ne_openParen tokens noCall rfl

/-- What begins like a statement is another formula than what it returns: the
word is a name in it. -/
theorem ofChars_isStatement (parsed : ofChars text = .ok e) (noCall : e.callNames = [])
    (statement : IsStatement text) : ofChars (statementBody text) ≠ .ok e := by
  obtain ⟨c, rest, eq, blank⟩ := statement
  have ends : (Character.isBlank c || c == '(') = true := by simp [blank]
  obtain ⟨bs, spelled, text_eq, tokens⟩ := exists_blocks_of_word parsed eq ends
  obtain ⟨core, k, hcore, core_eq, returned⟩ := spelled.exists_unended
  rw [statementBody_of_word eq ends, ← text_eq, ← core_eq]
  intro returns
  have same := hcore.ofChars_eq_ok_iff.mp returns
  have names := Parser.references_of_parseTokens tokens 0
  have fewer := Parser.references_of_parseTokens same k
  have mentioned : Token.mention? none "return" (Block.tokens bs) =
      some (.reference "return") := by
    have notCalled := Parser.head?_ne_openParen tokens noCall
    have free : isReserved "return" = false := by decide +kernel
    simp [Token.mention?, free, notCalled]
  rw [List.replicate_zero, List.append_nil, Token.mentions, mentioned, returned,
    List.filterMap_append, fewer] at names
  simpa [Mention.reference?] using congrArg List.length names

end Expr

namespace Library

/-- A library accepts a definition, and has the tree under its name. -/
def Accepts (l : Library) (d : Definition) (e : Expr) : Prop :=
  ∃ l', l.define d = .ok l' ∧ (l'.find? d.name).map (·.body) = some e

/-- A definition is accepted just if its names are fit and its statement is parsed. -/
theorem accepts_iff {l : Library} {d : Definition} {e : Expr} :
    l.Accepts d e ↔ isFunctionName d.name = true ∧
      Definition.parameterFault? (capitals d.name) [] d.parameters = none ∧
      Expr.ofChars (statementBody d.body.toList) = .ok e := by
  have found : ∀ e', ((l.add ⟨{ d with name := capitals d.name }, e'⟩).find? d.name).map (·.body) =
      some e' := fun e' => by rw [find?_add_self rfl]; rfl
  constructor
  · rintro ⟨l', defined, body⟩
    obtain ⟨f, compiled, rfl⟩ := define_eq_ok_iff.mp defined
    obtain ⟨named, accepted, e', parsed, rfl⟩ := Definition.compile_eq_ok_iff.mp compiled
    obtain rfl := Option.some.inj ((found e').symm.trans body)
    exact ⟨named, accepted, parsed⟩
  · rintro ⟨named, accepted, parsed⟩
    have compiled := Definition.compile_eq_ok_iff.mpr ⟨named, accepted, e, parsed, rfl⟩
    exact ⟨_, define_eq_ok_iff.mpr ⟨_, compiled, rfl⟩, found e⟩

/-- **A statement means the formula that it returns.**  Whatever formula without
calls is returned, with a semicolon or without, the definition is accepted with
the tree of the formula.  The formula alone is accepted with its tree too, just
unless it begins like a statement. -/
theorem accepts_statement (l : Library) {name text : String} {parameters : List String}
    {e : Expr} (description : String) (named : isFunctionName name = true)
    (accepted : Definition.parameterFault? (capitals name) [] parameters = none)
    (parsed : Expr.parse text = .ok e) (noCall : e.callNames = []) :
    l.Accepts ⟨name, description, parameters, "return " ++ text⟩ e ∧
      l.Accepts ⟨name, description, parameters, "return " ++ text ++ ";"⟩ e ∧
      (l.Accepts ⟨name, description, parameters, text⟩ e ↔ ¬ IsStatement text.toList) := by
  obtain ⟨plain, ended⟩ := Expr.ofChars_statementBody_return parsed
  rw [← String.toList_append] at plain ended
  rw [show [';'] = ";".toList from rfl, ← String.toList_append] at ended
  refine ⟨accepts_iff.mpr ⟨named, accepted, plain⟩, accepts_iff.mpr ⟨named, accepted, ended⟩, ?_⟩
  · rw [accepts_iff]
    constructor
    · rintro ⟨-, -, returned⟩ statement
      exact Expr.ofChars_isStatement parsed noCall statement returned
    · intro formula
      exact ⟨named, accepted, Expr.ofChars_statementBody parsed noCall formula⟩

/-- A parameter called `return` in a formula, with a statement in quotes. -/
def returning : String := "\u00a0return+[\"; return x;\", return];"

theorem accepts_statement_returning : ∃ e, Expr.parse returning = .ok e ∧
    e.names = ["return", "return"] ∧
    empty.Accepts ⟨"F", "", ["return"], "return " ++ returning⟩ e ∧
    empty.Accepts ⟨"F", "", ["return"], "return " ++ returning ++ ";"⟩ e ∧
    empty.Accepts ⟨"F", "", ["return"], returning⟩ e := by
  have shape : (Expr.parse returning).toOption.map (fun e => (e.names, e.callNames)) =
      some (["return", "return"], []) := by decide +kernel
  have trimmed : Character.trim returning.toList =
      "return".toList ++ "+[\"; return x;\", return];".toList := by decide +kernel
  cases parsed : Expr.parse returning with
  | error f => rw [parsed] at shape; cases shape
  | ok e =>
      rw [parsed] at shape
      obtain ⟨names, noCall⟩ := Prod.mk.inj (Option.some.inj shape)
      have named : isFunctionName "F" = true := by decide +kernel
      have accepted : Definition.parameterFault? (capitals "F") [] ["return"] = none := by
        decide +kernel
      obtain ⟨plain, ended, alone⟩ := empty.accepts_statement "" named accepted parsed noCall
      refine ⟨e, rfl, names, plain, ended, alone.mpr ?_⟩
      rintro ⟨c, rest, eq, blank⟩
      rw [trimmed] at eq
      cases eq
      exact absurd blank (by decide)

/-- One less than a parameter called `return` is the negative number as a
body. -/
theorem not_accepts_difference : ∃ e e', Expr.parse "return - 1" = .ok e ∧ e.callNames = [] ∧
    e.names = ["return"] ∧ e'.names = [] ∧
    empty.Accepts ⟨"F", "", ["return"], "return - 1"⟩ e' ∧
    ¬ empty.Accepts ⟨"F", "", ["return"], "return - 1"⟩ e := by
  have shape : (Expr.parse "return - 1").toOption.map (fun e => (e.names, e.callNames)) =
      some (["return"], []) := by decide +kernel
  have returned : (Expr.ofChars (statementBody "return - 1".toList)).toOption.map Expr.names =
      some [] := by decide +kernel
  have statement : IsStatement "return - 1".toList := ⟨' ', "- 1".toList, by decide, by decide⟩
  cases parsed : Expr.parse "return - 1" with
  | error f => rw [parsed] at shape; cases shape
  | ok e =>
      rw [parsed] at shape
      obtain ⟨names, noCall⟩ := Prod.mk.inj (Option.some.inj shape)
      cases body : Expr.ofChars (statementBody "return - 1".toList) with
      | error f => rw [body] at returned; cases returned
      | ok e' =>
          rw [body] at returned
          refine ⟨e, e', rfl, noCall, names, Option.some.inj returned, ?_, ?_⟩
          · exact accepts_iff.mpr ⟨by decide +kernel, by decide +kernel, body⟩
          · intro accepted
            exact Expr.ofChars_isStatement parsed noCall statement (accepts_iff.mp accepted).2.2

end Library

end FormulaSheet
