import Mathlib.Tactic.FinCases
import FormulaSheet.Proofs.Grammar
import FormulaSheet.Proofs.Scanning

/-!
# Formulas spelled out

A formula's text is a row of blocks: blanks, names, numbers, quoted texts and
signs.  Which characters a block may be followed by is part of the spelling,
so a block can be exchanged for another where the spelling is kept.

* `Block.readsAs` — a spelled block is read as its token, wherever it stands;
* `Token.exists_block` — a token that is read is a block;
* `Lexed.ofText_ok` — an induction on texts that are read to their end;
* `Expr.ofChars_eq_ok_iff` — the texts of formulas are those that can be
  spelled with the tokens of a formula.
-/

namespace FormulaSheet

/-- `Quotes q body s`: between quotes `q` the text `body` stands for `s`. -/
inductive Quotes (q : Char) : List Char → List Char → Prop
  | nil : Quotes q [] []
  | plain {c : Char} {body s : List Char} : c ≠ q → c ≠ '\\' → Quotes q body s →
      Quotes q (c :: body) (c :: s)
  | escape {c : Char} {body s : List Char} : c ≠ 'u' → Quotes q body s →
      Quotes q ('\\' :: c :: body) (escapedChar c :: s)
  | code {u v w x c : Char} {body s : List Char} : escapedCode? u v w x = some c →
      Quotes q body s → Quotes q ('\\' :: 'u' :: u :: v :: w :: x :: body) (c :: s)

/-- A number's exponent, or nothing. -/
inductive IsExponent : List Char → Prop
  | none : IsExponent []
  | some {e : Char} {sign digits : List Char} : e = 'e' ∨ e = 'E' →
      sign ∈ [[], ['+'], ['-']] → digits ≠ [] → (∀ d ∈ digits, d.isDigit = true) →
      IsExponent (e :: (sign ++ digits))

/-- Digits and points that begin a number, and an exponent. -/
inductive IsNumeral : List Char → Prop
  | digit {c : Char} {body exponent : List Char} : c.isDigit = true →
      (∀ d ∈ body, (d.isDigit || d == '.') = true) → IsExponent exponent →
      IsNumeral (c :: (body ++ exponent))
  | point {c : Char} {body exponent : List Char} : c.isDigit = true →
      (∀ d ∈ body, (d.isDigit || d == '.') = true) → IsExponent exponent →
      IsNumeral ('.' :: c :: (body ++ exponent))

/-- The signs, with their symbols. -/
def signs : List (List Char × Symbol) := [
  (['('], .openParen), ([')'], .closeParen), (['['], .openBracket), ([']'], .closeBracket),
  (['\x7b'], .openBrace), (['\x7d'], .closeBrace), ([','], .comma), ([';'], .semicolon),
  ([':'], .colon), (['?'], .question), (['+'], .plus), (['-'], .minus), (['*'], .star),
  (['/'], .slash), (['%'], .percent), (['=', '=', '='], .identical), (['=', '='], .equal),
  (['!', '=', '='], .notIdentical), (['!', '='], .notEqual), (['!'], .bang),
  (['<', '='], .lessEqual), (['<', '>'], .notEqual), (['<'], .less), (['>', '='], .greaterEqual),
  (['>'], .greater), (['&', '&'], .both), (['|', '|'], .either)]

/-- The characters that would make a longer sign of a sign. -/
def continuations : List Char → List Char
  | ['='] => ['=']
  | ['=', '='] => ['=']
  | ['!'] => ['=']
  | ['!', '='] => ['=']
  | ['<'] => ['=', '>']
  | ['>'] => ['=']
  | _ => []

/-- A part of a formula's text. -/
inductive Block where
  | blank (c : Char)
  | name (w : List Char)
  | number (cs : List Char) (x : Float)
  | quoted (q : Char) (body s : List Char)
  | sign (cs : List Char) (s : Symbol)

/-- What follows a name or a number does not lengthen it. -/
def EndsWord (rest : List Char) : Prop :=
  ∀ c more, rest = c :: more → Character.isWord c = false ∧ c ≠ '.'

namespace Block

/-- The text of a block. -/
def text : Block → List Char
  | blank c => [c]
  | name w => w
  | number cs _ => cs
  | quoted q body _ => q :: (body ++ [q])
  | sign cs _ => cs

/-- The token of a block; blanks have none. -/
def token? : Block → Option Token
  | blank _ => none
  | name w => some (.name (String.ofList w))
  | number _ x => some (.number x)
  | quoted _ _ s => some (.text (String.ofList s))
  | sign _ s => some (.symbol s)

/-- A block is made as its kind says. -/
def Valid : Block → Prop
  | blank c => Character.isBlank c = true
  | name w => isIdentifier w = true
  | number cs x => IsNumeral cs ∧ Number.ofUnsigned? cs = some x
  | quoted q body s => (q = '"' ∨ q = '\'') ∧ Quotes q body s
  | sign cs s => (cs, s) ∈ signs

/-- The characters after a block leave it as it is. -/
def Fits : Block → List Char → Prop
  | blank _, _ => True
  | name _, rest => EndsWord rest
  | number _ _, rest => EndsWord rest
  | quoted _ _ _, _ => True
  | sign cs _, rest => ∀ c more, rest = c :: more → c ∉ continuations cs

/-- The text of blocks in a row. -/
def textOf (bs : List Block) : List Char := bs.flatMap text

/-- The tokens of blocks in a row. -/
def tokens (bs : List Block) : List Token := bs.filterMap token?

end Block

/-- Blocks in a row that are read as what they are. -/
def Spelled : List Block → Prop
  | [] => True
  | b :: bs => b.Valid ∧ b.Fits (Block.textOf bs) ∧ Spelled bs

/-- Letters of ASCII by their codes. -/
theorem isAlpha_iff {c : Char} : c.isAlpha = true ↔
    (65 ≤ c.toNat ∧ c.toNat ≤ 90) ∨ (97 ≤ c.toNat ∧ c.toNat ≤ 122) := by
  have letters : c.isAlpha = (decide ('A'.val ≤ c.val ∧ c.val ≤ 'Z'.val) ||
      (decide ('a'.val ≤ c.val) && decide (c.val ≤ 'z'.val))) := rfl
  rw [letters]
  simp only [Bool.or_eq_true, Bool.and_eq_true, decide_eq_true_eq, UInt32.le_iff_toNat_le]
  exact Iff.rfl

/-- Digits by their codes. -/
theorem isDigit_iff {c : Char} : c.isDigit = true ↔ 48 ≤ c.toNat ∧ c.toNat ≤ 57 := by
  have digits : c.isDigit = (decide ('0'.val ≤ c.val) && decide (c.val ≤ '9'.val)) := rfl
  rw [digits]
  simp only [Bool.and_eq_true, decide_eq_true_eq, UInt32.le_iff_toNat_le]
  exact Iff.rfl

/-- Name characters are in ASCII. -/
theorem ascii_of_isNamePart {c : Char} (h : isNamePart c = true) : c.toNat < 128 := by
  simp only [isNamePart, Bool.or_eq_true, beq_iff_eq, Char.isAlphanum, isAlpha_iff,
    isDigit_iff] at h
  rcases h with h | rfl
  · omega
  · decide

/-- Name characters are word characters. -/
theorem isWord_of_isNamePart {c : Char} (h : isNamePart c = true) :
    Character.isWord c = true := by
  rw [Character.isWord_of_ascii (ascii_of_isNamePart h)]
  exact h

/-- A digit begins no name. -/
theorem not_isNameStart_of_isDigit {c : Char} (h : c.isDigit = true) :
    isNameStart c = false := by
  have range := isDigit_iff.mp h
  rw [Bool.eq_false_iff]
  intro hstart
  simp only [isNameStart, Bool.or_eq_true, beq_iff_eq, isAlpha_iff] at hstart
  rcases hstart with hletter | rfl
  · omega
  · simp at h

/-- What begins a name may stand inside one. -/
theorem isNamePart_of_isNameStart {c : Char} (h : isNameStart c = true) :
    isNamePart c = true := by
  simp only [isNameStart, isNamePart, Char.isAlphanum, Bool.or_eq_true] at h ⊢
  rcases h with h | h
  · exact .inl (.inl h)
  · exact .inr h

/-- So may a digit. -/
theorem isNamePart_of_isDigit {c : Char} (h : c.isDigit = true) : isNamePart c = true := by
  simp only [isNamePart, Char.isAlphanum, Bool.or_eq_true]
  exact .inl (.inr h)

/-- What begins a name is a character of words. -/
theorem isWord_of_isNameStart {c : Char} (h : isNameStart c = true) :
    Character.isWord c = true :=
  isWord_of_isNamePart (isNamePart_of_isNameStart h)

/-- So is a digit. -/
theorem isWord_of_isDigit {c : Char} (h : c.isDigit = true) : Character.isWord c = true :=
  isWord_of_isNamePart (isNamePart_of_isDigit h)

/-- No character of words is a blank. -/
theorem not_isBlank_of_isWord {c : Char} (h : Character.isWord c = true) :
    Character.isBlank c = false := by
  cases hblank : Character.isBlank c with
  | false => rfl
  | true =>
      rw [Character.isWord_of_isBlank hblank] at h
      cases h

/-- Where a word ends, no character of words follows. -/
theorem EndsWord.not_isWord {rest : List Char} (h : EndsWord rest) {c : Char}
    {more : List Char} (eq : rest = c :: more) : Character.isWord c = false := (h c more eq).1

theorem endsWord_nil : EndsWord [] := by
  intro c more h
  cases h

/-- Identifiers are made of word characters. -/
theorem isWord_of_isIdentifier {w : List Char} (h : isIdentifier w = true) :
    ∀ c ∈ w, Character.isWord c = true := by
  cases w with
  | nil => cases h
  | cons c cs =>
      simp only [isIdentifier, Bool.and_eq_true, List.all_eq_true] at h
      exact List.forall_mem_cons.mpr ⟨isWord_of_isNameStart h.1,
        fun d hd => isWord_of_isNamePart (h.2 d hd)⟩

/-- An identifier goes on with a word. -/
theorem not_endsWord_of_isIdentifier {w : List Char} (h : isIdentifier w = true)
    (rest : List Char) : ¬ EndsWord (w ++ rest) := by
  intro ends
  have word := isWord_of_isIdentifier h
  cases w with
  | nil => cases h
  | cons c cs => exact absurd (word c List.mem_cons_self) (by rw [ends.not_isWord rfl]; decide)

/-- A number goes on with a word, or with the point behind one. -/
theorem IsNumeral.not_endsWord {cs : List Char} (h : IsNumeral cs) (rest : List Char) :
    ¬ EndsWord (cs ++ rest) := by
  intro ends
  cases h with
  | digit hc _ _ => exact absurd (isWord_of_isDigit hc) (by rw [ends.not_isWord rfl]; decide)
  | point _ _ _ => exact absurd rfl (ends '.' _ rfl).2

/-- Taking stops where `p` does. -/
theorem takeWhile_eq_self {p : Char → Bool} {cs rest : List Char} (all : ∀ c ∈ cs, p c = true)
    (stop : ∀ c more, rest = c :: more → p c = false) :
    (cs ++ rest).takeWhile p = cs ∧ (cs ++ rest).dropWhile p = rest := by
  have ends : rest.takeWhile p = [] ∧ rest.dropWhile p = rest := by
    cases rest with
    | nil => exact ⟨rfl, rfl⟩
    | cons c more => simp [stop c more rfl]
  rw [List.takeWhile_append_of_pos all, List.dropWhile_append_of_pos all, ends.1, ends.2]
  simp

namespace Token

/-- The text of the token that is read from `cs ++ rest` is `cs`. -/
def ReadsAs (cs : List Char) (t : Token) (rest : List Char) : Prop :=
  ∃ c more, cs = c :: more ∧ Character.isBlank c = false ∧
    ∀ start, ∃ next, read start c (more ++ rest) = .token t next rest

/-- A name is read as its token, if it ends where its word does. -/
theorem readsAs_name {w rest : List Char} (hw : isIdentifier w = true) (hrest : EndsWord rest) :
    ReadsAs w (.name (String.ofList w)) rest := by
  cases w with
  | nil => cases hw
  | cons c cs =>
      simp only [isIdentifier, Bool.and_eq_true, List.all_eq_true] at hw
      have hpart := isNamePart_of_isNameStart hw.1
      have hword := isWord_of_isNamePart hpart
      refine ⟨c, cs, rfl, not_isBlank_of_isWord hword, fun start => ?_⟩
      have notQuote : ¬ (c = '"' ∨ c = '\'') := by
        rintro (rfl | rfl) <;> exact absurd hword (by decide)
      have notPoint : c ≠ '.' := by
        intro eq
        subst eq
        exact absurd hword (by decide)
      have notDigit : c.isDigit = false := by
        rw [Bool.eq_false_iff]
        intro hdigit
        exact absurd hw.1 (by simp [not_isNameStart_of_isDigit hdigit])
      have whole : ∀ d ∈ c :: cs, isNamePart d = true :=
        List.forall_mem_cons.mpr ⟨hpart, hw.2⟩
      have stop : ∀ d more, rest = d :: more → isNamePart d = false := by
        intro d more eq
        cases hd : isNamePart d with
        | false => rfl
        | true =>
            have hword := isWord_of_isNamePart hd
            rw [hrest.not_isWord eq] at hword
            cases hword
      have cut := takeWhile_eq_self whole stop
      rw [List.cons_append] at cut
      rw [read, if_neg notQuote, if_neg (by simp [notDigit]), if_neg (fun h => notPoint h.1),
        if_pos hw.1, readName, cut.1, cut.2]
      exact ⟨_, rfl⟩

/-- An exponent is taken whole, and no more than it. -/
theorem takeExponent_append {exponent rest : List Char} (h : IsExponent exponent)
    (hrest : EndsWord rest) : takeExponent (exponent ++ rest) = (exponent, rest) := by
  cases h with
  | none =>
      cases rest with
      | nil => rfl
      | cons c more =>
          have notLetter : ¬ (c = 'e' ∨ c = 'E') := by
            rintro (rfl | rfl) <;> exact absurd (hrest.not_isWord rfl) (by decide)
          rw [List.nil_append]
          unfold takeExponent
          exact if_neg notLetter
  | @some e sign digits he hsign hne hdigits =>
      have stop : ∀ d more, rest = d :: more → d.isDigit = false := by
        intro d more eq
        cases hd : d.isDigit with
        | false => rfl
        | true =>
            have hword := isWord_of_isDigit hd
            rw [hrest.not_isWord eq] at hword
            cases hword
      have cut := takeWhile_eq_self hdigits stop
      have nonempty : digits.isEmpty = false := by simpa using hne
      simp only [List.mem_cons, List.not_mem_nil, or_false] at hsign
      rcases hsign with rfl | rfl | rfl
      · obtain ⟨d, ds, rfl⟩ := List.exists_cons_of_ne_nil hne
        have hd := hdigits d List.mem_cons_self
        have notPlus : d ≠ '+' := by
          intro eq
          subst eq
          exact absurd hd (by decide)
        have notMinus : d ≠ '-' := by
          intro eq
          subst eq
          exact absurd hd (by decide)
        rw [List.cons_append] at cut
        simp [takeExponent, he, notPlus, notMinus, cut.1, cut.2]
      · simp [takeExponent, he, nonempty, cut.1, cut.2]
      · simp [takeExponent, he, nonempty, cut.1, cut.2]

/-- A number is read whole: its digits and points, and its exponent. -/
theorem readNumber_eq {body exponent rest : List Char} {x : Float}
    (hbody : ∀ d ∈ body, (d.isDigit || d == '.') = true) (hexponent : IsExponent exponent)
    (hx : Number.ofUnsigned? (body ++ exponent) = some x) (hrest : EndsWord rest)
    (start : Nat) : ∃ next,
      readNumber start (body ++ (exponent ++ rest)) = .token (.number x) next rest := by
  have stop : ∀ d more, exponent ++ rest = d :: more → (d.isDigit || d == '.') = false := by
    intro d more eq
    cases hexponent with
    | none =>
        obtain ⟨hword, hpoint⟩ := hrest d more eq
        have notDigit : d.isDigit = false := by
          cases hd : d.isDigit with
          | false => rfl
          | true =>
              rw [isWord_of_isDigit hd] at hword
              cases hword
        simp [notDigit, hpoint]
    | some he _ _ _ =>
        cases eq
        rcases he with rfl | rfl <;> decide
  have cut := takeWhile_eq_self hbody stop
  unfold readNumber
  simp only [cut.1, cut.2, takeExponent_append hexponent hrest, hx]
  exact ⟨_, rfl⟩

/-- A numeral is read as the number that it writes. -/
theorem readsAs_number {cs rest : List Char} {x : Float} (hcs : IsNumeral cs)
    (hx : Number.ofUnsigned? cs = some x) (hrest : EndsWord rest) :
    ReadsAs cs (.number x) rest := by
  have notQuote : ∀ {c : Char}, c.isDigit = true → ¬ (c = '"' ∨ c = '\'') := by
    rintro c hc (rfl | rfl) <;> exact absurd hc (by decide)
  cases hcs with
  | @digit c body exponent hc hbody hexponent =>
      have whole : ∀ d ∈ c :: body, (d.isDigit || d == '.') = true :=
        List.forall_mem_cons.mpr ⟨by simp [hc], hbody⟩
      refine ⟨c, body ++ exponent, rfl,
        not_isBlank_of_isWord (isWord_of_isDigit hc), fun start => ?_⟩
      rw [read, if_neg (notQuote hc), if_pos hc, List.append_assoc]
      exact @readNumber_eq (c :: body) exponent rest x whole hexponent hx hrest start
  | @point c body exponent hc hbody hexponent =>
      have whole : ∀ d ∈ '.' :: c :: body, (d.isDigit || d == '.') = true :=
        List.forall_mem_cons.mpr ⟨by decide, List.forall_mem_cons.mpr ⟨by simp [hc], hbody⟩⟩
      refine ⟨'.', c :: (body ++ exponent), rfl, by decide, fun start => ?_⟩
      rw [read, if_neg (by decide), if_neg (by decide), if_pos (by simp [hc]), List.cons_append,
        List.append_assoc]
      exact @readNumber_eq ('.' :: c :: body) exponent rest x whole hexponent hx hrest start

/-- What stands in quotes is read up to the quote that closes it. -/
theorem readQuoted_eq {q : Char} (hq : q ≠ '\\') {body s : List Char} (h : Quotes q body s)
    (start position : Nat) (out rest : List Char) : ∃ next,
      readQuoted q start out position (body ++ q :: rest) =
        .token (.text (String.ofList (out.reverse ++ s))) next rest := by
  induction h generalizing position out with
  | nil =>
      unfold readQuoted
      rw [List.nil_append, List.append_nil]
      exact ⟨_, if_pos rfl⟩
  | plain hplain hslash _ ih =>
      rw [List.cons_append]
      unfold readQuoted
      rw [if_neg hplain, if_neg hslash]
      simpa using ih _ (_ :: out)
  | @escape c body s hu _ ih =>
      rw [List.cons_append, List.cons_append]
      unfold readQuoted
      rw [if_neg hq.symm, if_pos rfl]
      split
      · rename_i eq
        cases eq
      · rename_i eq
        exact absurd (List.cons.inj eq).1 hu
      · rename_i eq
        exact absurd (List.cons.inj eq).1 hu
      · rename_i eq
        obtain ⟨rfl, rfl⟩ := List.cons.inj eq
        simpa using ih _ (_ :: out)
  | code hcode _ ih =>
      simp only [List.cons_append]
      unfold readQuoted
      rw [if_neg hq.symm, if_pos rfl]
      simp only [hcode]
      simpa using ih _ (_ :: out)

/-- A sign is read as its symbol, unless a longer one could go on. -/
theorem readsAs_sign {cs rest : List Char} {s : Symbol} (hcs : (cs, s) ∈ signs)
    (hrest : ∀ c more, rest = c :: more → c ∉ continuations cs) :
    ReadsAs cs (.symbol s) rest := by
  have alone : ∀ {c : Char} {more : List Char}, (∀ start, ∃ next,
      readSymbol start c (more ++ rest) = .token (.symbol s) next rest) →
      (∀ start, read start c (more ++ rest) = readSymbol start c (more ++ rest)) →
      Character.isBlank c = false → ReadsAs (c :: more) (.symbol s) rest := by
    intro c more hread same hblank
    exact ⟨c, more, rfl, hblank, fun start => by rw [same]; exact hread start⟩
  fin_cases hcs
  all_goals first
    | exact alone (fun start => ⟨_, rfl⟩) (fun start => rfl) (by decide)
    | refine alone (fun start => ?_) (fun start => rfl) (by decide)
      cases rest with
      | nil => exact ⟨_, rfl⟩
      | cons d more =>
          have hd := hrest d more rfl
          simp only [continuations, List.mem_cons, List.not_mem_nil, or_false, not_or] at hd
          simp [readSymbol, hd]

/-- What is taken for an exponent is one, and the rest is left. -/
theorem takeExponent_eq (cs : List Char) :
    cs = (takeExponent cs).1 ++ (takeExponent cs).2 ∧ IsExponent (takeExponent cs).1 := by
  rcases h : takeExponent cs with ⟨exponent, rest⟩
  have nothing : (([], cs) : List Char × List Char) = (exponent, rest) →
      cs = exponent ++ rest ∧ IsExponent exponent := by
    intro h
    cases h
    exact ⟨rfl, .none⟩
  have digits : ∀ {e : Char} {more sign ds : List Char}, cs = e :: more → e = 'e' ∨ e = 'E' →
      sign ∈ [[], ['+'], ['-']] → more = sign ++ ds →
      (if (ds.takeWhile Char.isDigit).isEmpty then ([], cs)
        else (e :: sign ++ ds.takeWhile Char.isDigit, ds.dropWhile Char.isDigit)) =
        (exponent, rest) →
      cs = exponent ++ rest ∧ IsExponent exponent := by
    intro e more sign ds hcs he hsign hmore h
    split at h
    · exact nothing h
    · rename_i some_digit
      cases h
      refine ⟨?_, .some he hsign (by simpa using some_digit) ?_⟩
      · rw [hcs, hmore, List.cons_append, List.cons_append, List.append_assoc,
          List.takeWhile_append_dropWhile]
      · intro d hd
        exact List.all_eq_true.mp List.all_takeWhile d hd
  unfold takeExponent at h
  split at h
  · split at h
    · rename_i e more he
      dsimp only at h
      split at h
      · exact digits rfl he (by simp) (by rfl) h
      · exact digits rfl he (by simp) (by rfl) h
      · exact digits rfl he (by simp) (by rfl) h
    · exact nothing h
  · exact nothing h

/-- What is read as a number is digits and points, and an exponent. -/
theorem readNumber_eq_token {start next : Nat} {cs rest : List Char} {t : Token}
    (h : readNumber start cs = .token t next rest) :
    ∃ body exponent x, cs = body ++ exponent ++ rest ∧ IsExponent exponent ∧
      body = cs.takeWhile (fun c => c.isDigit || c == '.') ∧
      Number.ofUnsigned? (body ++ exponent) = some x ∧ t = .number x := by
  unfold readNumber at h
  dsimp only at h
  split at h
  · rename_i x hx
    cases h
    have cut := List.takeWhile_append_dropWhile (p := fun c : Char => c.isDigit || c == '.')
      (l := cs)
    obtain ⟨eq, isExponent⟩ := takeExponent_eq (cs.dropWhile fun c => c.isDigit || c == '.')
    refine ⟨_, _, x, ?_, isExponent, rfl, hx, rfl⟩
    rw [List.append_assoc, ← eq, cut]
  · cases h

/-- What is read as quoted text ends at a quote, and its escapes are read. -/
theorem readQuoted_eq_token {q : Char} {start position next : Nat} {out cs rest : List Char}
    {t : Token} (h : readQuoted q start out position cs = .token t next rest) :
    ∃ body s, Quotes q body s ∧ cs = body ++ q :: rest ∧
      t = .text (String.ofList (out.reverse ++ s)) := by
  fun_induction readQuoted q start out position cs with
  | case1 => cases h
  | case2 out position cs =>
      cases h
      exact ⟨[], [], .nil, rfl, by rw [List.append_nil]⟩
  | case3 => cases h
  | case4 out position u v w x cs e hcode _ ih =>
      obtain ⟨body, s, quotes, rfl, rfl⟩ := ih h
      exact ⟨_, _, .code hcode quotes, by simp, by simp⟩
  | case5 => cases h
  | case6 => cases h
  | case7 out position e cs _ hu _ ih =>
      obtain ⟨body, s, quotes, rfl, rfl⟩ := ih h
      exact ⟨_, _, .escape hu quotes, by simp, by simp⟩
  | case8 out position c cs hplain hslash ih =>
      obtain ⟨body, s, quotes, rfl, rfl⟩ := ih h
      exact ⟨_, _, .plain hplain hslash quotes, by simp, by simp⟩

/-- What is read as a symbol is one of its signs, the longest that fits. -/
theorem readSymbol_eq_token {start next : Nat} {c : Char} {cs rest : List Char} {t : Token}
    (h : readSymbol start c cs = .token t next rest) :
    ∃ ws s, (ws, s) ∈ signs ∧ c :: cs = ws ++ rest ∧ t = .symbol s ∧
      ∀ d more, rest = d :: more → d ∉ continuations ws := by
  unfold readSymbol at h
  dsimp only at h
  split at h
  all_goals cases h
  all_goals first
    | refine ⟨[_], _, ?_, rfl, rfl, ?_⟩
      · decide
      · intro d more eq
        subst eq
        simp_all [continuations]
    | refine ⟨[_, _], _, ?_, rfl, rfl, ?_⟩
      · decide
      · intro d more eq
        subst eq
        simp_all [continuations]
    | refine ⟨[_, _, _], _, ?_, rfl, rfl, ?_⟩
      · decide
      · intro d more eq
        subst eq
        simp_all [continuations]

/-- A token that is read is a block. -/
theorem exists_block {start next : Nat} {c : Char} {cs rest : List Char} {t : Token}
    (h : read start c cs = .token t next rest) :
    ∃ b : Block, b.Valid ∧ b.token? = some t ∧ c :: cs = b.text ++ rest ∧
      (∀ s, t = .symbol s → b.Fits rest) := by
  unfold read at h
  split at h
  · rename_i hq
    obtain ⟨body, s, quotes, rfl, rfl⟩ := readQuoted_eq_token h
    refine ⟨.quoted c body s, ⟨hq, quotes⟩, rfl, by simp [Block.text], ?_⟩
    intro s h
    cases h
  · split at h
    · rename_i hc
      obtain ⟨body, exponent, x, eq, hexponent, hbody, hx, rfl⟩ := readNumber_eq_token h
      rw [List.takeWhile_cons_of_pos (by simp [hc])] at hbody
      subst hbody
      refine ⟨.number _ x, ⟨?_, hx⟩, rfl, by rw [eq]; rfl, ?_⟩
      · exact .digit hc (fun d hd => List.all_eq_true.mp List.all_takeWhile d hd) hexponent
      · intro s h
        cases h
    · split at h
      · rename_i hpoint
        obtain ⟨rfl, hdigit⟩ := hpoint
        obtain ⟨body, exponent, x, eq, hexponent, hbody, hx, rfl⟩ := readNumber_eq_token h
        cases cs with
        | nil => cases hdigit
        | cons d more =>
            have hd : d.isDigit = true := hdigit
            rw [List.takeWhile_cons_of_pos (by decide), List.takeWhile_cons_of_pos (by simp [hd])]
              at hbody
            subst hbody
            refine ⟨.number _ x, ⟨?_, hx⟩, rfl, by rw [eq]; rfl, ?_⟩
            · exact .point hd (fun d hd => List.all_eq_true.mp List.all_takeWhile d hd) hexponent
            · intro s h
              cases h
      · split at h
        · rename_i hstart
          unfold readName at h
          cases h
          rw [List.takeWhile_cons_of_pos (isNamePart_of_isNameStart hstart),
            List.dropWhile_cons_of_pos (isNamePart_of_isNameStart hstart)]
          refine ⟨.name (c :: cs.takeWhile isNamePart), ?_, rfl, ?_, ?_⟩
          · simp only [Block.Valid, isIdentifier, hstart, Bool.true_and]
            exact List.all_takeWhile
          · simp [Block.text, List.takeWhile_append_dropWhile]
          · intro s h
            cases h
        · obtain ⟨ws, s, hws, eq, rfl, hrest⟩ := readSymbol_eq_token h
          exact ⟨.sign ws s, hws, rfl, eq, fun _ _ => hrest⟩

end Token

namespace Block

/-- A block that is spelled is read as its token. -/
theorem readsAs {b : Block} {t : Token} {rest : List Char} (hvalid : b.Valid)
    (hfits : b.Fits rest) (ht : b.token? = some t) : Token.ReadsAs b.text t rest := by
  cases b with
  | blank c => cases ht
  | name w =>
      cases ht
      exact Token.readsAs_name hvalid hfits
  | number cs x =>
      cases ht
      exact Token.readsAs_number hvalid.1 hvalid.2 hfits
  | quoted q body s =>
      cases ht
      obtain ⟨hq, quotes⟩ := hvalid
      refine ⟨q, body ++ [q], rfl, ?_, fun start => ?_⟩
      · rcases hq with rfl | rfl <;> decide
      · rw [Token.read, if_pos hq, List.append_assoc]
        refine Token.readQuoted_eq ?_ quotes start (start + 1) [] rest
        rcases hq with rfl | rfl <;> decide
  | sign cs s =>
      cases ht
      exact Token.readsAs_sign hvalid hfits

@[simp] theorem textOf_nil : textOf [] = [] := rfl

@[simp] theorem textOf_cons (b : Block) (bs : List Block) :
    textOf (b :: bs) = b.text ++ textOf bs := by
  simp [textOf]

@[simp] theorem textOf_append (bs cs : List Block) :
    textOf (bs ++ cs) = textOf bs ++ textOf cs := by
  simp [textOf]

@[simp] theorem tokens_nil : tokens [] = [] := rfl

@[simp] theorem tokens_append (bs cs : List Block) :
    tokens (bs ++ cs) = tokens bs ++ tokens cs := by
  simp [tokens]

/-- A block that has a token puts it before the others. -/
theorem tokens_cons_of_some {b : Block} {t : Token} (h : b.token? = some t) (bs : List Block) :
    tokens (b :: bs) = t :: tokens bs := by
  simp [tokens, h]

@[simp] theorem tokens_blank (c : Char) (bs : List Block) :
    tokens (.blank c :: bs) = tokens bs := rfl

@[simp] theorem tokens_name (w : List Char) (bs : List Block) :
    tokens (.name w :: bs) = .name (String.ofList w) :: tokens bs := rfl

@[simp] theorem tokens_number (cs : List Char) (x : Float) (bs : List Block) :
    tokens (.number cs x :: bs) = .number x :: tokens bs := rfl

@[simp] theorem tokens_quoted (q : Char) (body s : List Char) (bs : List Block) :
    tokens (.quoted q body s :: bs) = .text (String.ofList s) :: tokens bs := rfl

@[simp] theorem tokens_sign (cs : List Char) (s : Symbol) (bs : List Block) :
    tokens (.sign cs s :: bs) = .symbol s :: tokens bs := rfl

end Block

/-- No block is empty. -/
theorem Block.text_ne_nil {b : Block} (h : b.Valid) : b.text ≠ [] := by
  cases b with
  | blank c => simp [text]
  | name w =>
      intro eq
      subst eq
      cases h
  | number cs x =>
      intro eq
      subst eq
      cases h.1
  | quoted q body s => simp [text]
  | sign cs s =>
      have all : ∀ p ∈ signs, p.1 ≠ [] := by decide
      exact all _ h

/-- Spelled blocks are read as their tokens, to the end of the text. -/
theorem Lexed.readFrom_textOf {bs : List Block} (h : Spelled bs) (room : Nat)
    (out : List Lexeme) (position : Nat) (hroom : (Block.textOf bs).length < room) :
    (readFrom room out position (Block.textOf bs)).tokens =
        (out.map (·.token)).reverse ++ Block.tokens bs ∧
      ∃ size, (readFrom room out position (Block.textOf bs)).ending = .ok size := by
  induction bs generalizing room out position with
  | nil =>
      obtain ⟨room, rfl⟩ := Nat.exists_eq_succ_of_ne_zero (by omega : room ≠ 0)
      refine ⟨?_, position, rfl⟩
      simp [readFrom, tokens]
  | cons b bs ih =>
      obtain ⟨hvalid, hfits, hbs⟩ := h
      obtain ⟨room, rfl⟩ := Nat.exists_eq_succ_of_ne_zero (by omega : room ≠ 0)
      rw [Block.textOf_cons] at hroom ⊢
      cases ht : b.token? with
      | none =>
          cases b with
          | blank c =>
              have rest := ih hbs room out (position + c.utf8Size) (by
                simp [Block.text] at hroom
                omega)
              have hblank : Character.isBlank c = true := hvalid
              rw [Block.tokens_blank]
              simp only [Block.text, List.cons_append, List.nil_append]
              rw [readFrom, if_pos hblank]
              exact rest
          | name w => cases ht
          | number cs x => cases ht
          | quoted q body s => cases ht
          | sign cs s => cases ht
      | some t =>
          obtain ⟨c, more, eq, hblank, hread⟩ := Block.readsAs hvalid hfits ht
          obtain ⟨next, hnext⟩ := hread position
          have rest := ih hbs room (⟨t, position⟩ :: out) next (by
            simp [eq] at hroom
            omega)
          rw [Block.tokens_cons_of_some ht, eq, List.cons_append, readFrom,
            if_neg (by simp [hblank])]
          simp only [hnext]
          simpa using rest

/-- The tokens of a spelled text are those of its blocks. -/
theorem Spelled.lexed {bs : List Block} (h : Spelled bs) :
    (Lexed.ofText (Block.textOf bs)).tokens = Block.tokens bs ∧
      ∃ size, (Lexed.ofText (Block.textOf bs)).ending = .ok size := by
  have := Lexed.readFrom_textOf h ((Block.textOf bs).length + 1) [] 0 (Nat.lt_succ_self _)
  simpa [Lexed.ofText] using this

/-- No sign begins like a word or with a point. -/
theorem endsWord_of_mem_signs {cs : List Char} {s : Symbol} (h : (cs, s) ∈ signs)
    (rest : List Char) : EndsWord (cs ++ rest) := by
  have first : ∀ p ∈ signs, p.1.head?.all
      (fun c => !Character.isWord c && c != '.') = true ∧ p.1 ≠ [] := by decide +kernel
  obtain ⟨hhead, hne⟩ := first _ h
  obtain ⟨c, more, rfl⟩ := List.exists_cons_of_ne_nil hne
  intro d others eq
  cases eq
  simpa using hhead

/-- Only no blocks have no text. -/
theorem Spelled.eq_nil {bs : List Block} (h : Spelled bs) (empty : Block.textOf bs = []) :
    bs = [] := by
  cases bs with
  | nil => rfl
  | cons b bs =>
      rw [Block.textOf_cons, List.append_eq_nil_iff] at empty
      exact absurd empty.1 (Block.text_ne_nil h.1)

/-- Only the first character behind a block matters for it. -/
theorem Block.Fits.congr {b : Block} {c : Char} {more more' : List Char}
    (h : b.Fits (c :: more)) : b.Fits (c :: more') := by
  have ends : EndsWord (c :: more) → EndsWord (c :: more') := by
    intro h d others eq
    cases eq
    exact h c more rfl
  cases b with
  | blank d => trivial
  | name w => exact ends h
  | number cs x => exact ends h
  | quoted q body s => trivial
  | sign cs s =>
      intro d others eq
      cases eq
      exact h c more rfl

/-- Only the first block behind a block matters for it. -/
theorem Block.Fits.behind {b c : Block} {cs : List Block} (valid : c.Valid)
    (h : b.Fits (Block.textOf (c :: cs))) (cs' : List Block) :
    b.Fits (Block.textOf (c :: cs')) := by
  obtain ⟨d, more, eq⟩ := List.exists_cons_of_ne_nil (Block.text_ne_nil valid)
  rw [Block.textOf_cons, eq] at h ⊢
  exact h.congr

/-- A block fits before less text. -/
theorem Block.Fits.front {b : Block} {cs rest : List Char} (h : b.Fits (cs ++ rest)) :
    b.Fits cs := by
  cases cs with
  | cons c cs => exact h.congr
  | nil =>
      cases b with
      | blank c => trivial
      | name w => exact endsWord_nil
      | number cs x => exact endsWord_nil
      | quoted q body s => trivial
      | sign cs s =>
          intro c more eq
          cases eq

/-- Every block of a spelling is well-formed. -/
theorem Spelled.valid {bs : List Block} (h : Spelled bs) : ∀ b ∈ bs, b.Valid := by
  induction bs with
  | nil => simp
  | cons b bs ih => exact List.forall_mem_cons.mpr ⟨h.1, ih h.2.2⟩

/-- The blocks before others are spelled for themselves. -/
theorem Spelled.front {bs cs : List Block} (h : Spelled (bs ++ cs)) : Spelled bs := by
  induction bs with
  | nil => trivial
  | cons b bs ih =>
      obtain ⟨hvalid, hfits, hbs⟩ := h
      have fits : b.Fits (Block.textOf bs ++ Block.textOf cs) := by
        rw [← Block.textOf_append]
        exact hfits
      exact ⟨hvalid, fits.front, ih hbs⟩

/-- The blocks behind others are spelled for themselves. -/
theorem Spelled.back {bs cs : List Block} (h : Spelled (bs ++ cs)) : Spelled cs := by
  induction bs with
  | nil => exact h
  | cons b bs ih => exact ih h.2.2

/-- What is spelled after a name or a number does not lengthen it, since their
tokens stand apart. -/
theorem Spelled.endsWord {bs : List Block} (h : Spelled bs) {t : Token}
    (ht : ∀ s, t ≠ .symbol s) (apart : Separated (t :: Block.tokens bs)) :
    EndsWord (Block.textOf bs) := by
  cases bs with
  | nil => exact endsWord_nil
  | cons b bs =>
      obtain ⟨hvalid, -, -⟩ := h
      have symbol : ∀ u, b.token? = some u → ∃ s, u = .symbol s := by
        intro u hu
        rw [Block.tokens_cons_of_some hu] at apart
        obtain ⟨s, hs | hs⟩ := (List.isChain_cons_cons.mp apart).1
        · exact absurd hs (ht s)
        · exact ⟨s, hs⟩
      rw [Block.textOf_cons]
      cases b with
      | blank c =>
          intro d more eq
          cases eq
          refine ⟨Character.isWord_of_isBlank hvalid, ?_⟩
          intro eq
          subst eq
          exact absurd hvalid (by simp only [Block.Valid]; decide)
      | name w =>
          obtain ⟨s, hs⟩ := symbol _ rfl
          cases hs
      | number cs x =>
          obtain ⟨s, hs⟩ := symbol _ rfl
          cases hs
      | quoted q body s =>
          obtain ⟨s, hs⟩ := symbol _ rfl
          cases hs
      | sign cs s => exact endsWord_of_mem_signs hvalid _

/-- What holds of the end of a text, and of a blank or a token in front of what it
holds of, holds of a text that is read to its end, with its tokens. -/
theorem Lexed.ofText_ok {P : Nat → List Char → List Lexeme → Prop} (nil : ∀ n, P n [] [])
    (blank : ∀ {n : Nat} {c : Char} {cs : List Char} {ls : List Lexeme},
      Character.isBlank c = true → P (n + c.utf8Size) cs ls → P n (c :: cs) ls)
    (token : ∀ {n next : Nat} {c : Char} {cs rest : List Char} {t : Token} {ls : List Lexeme},
      Token.read n c cs = .token t next rest → P next rest ls → P n (c :: cs) (⟨t, n⟩ :: ls))
    {cs : List Char} {size : Nat} (hend : (ofText cs).ending = .ok size) :
    P 0 cs (ofText cs).lexemes := by
  have go : ∀ (room : Nat) (out : List Lexeme) (position : Nat) (cs : List Char),
      cs.length < room → (readFrom room out position cs).ending = .ok size →
      ∃ ls, (readFrom room out position cs).lexemes = out.reverse ++ ls ∧ P position cs ls := by
    intro room
    induction room with
    | zero => exact fun _ _ _ hroom => absurd hroom (Nat.not_lt_zero _)
    | succ room ih =>
        intro out position cs hroom hend
        cases cs with
        | nil => exact ⟨[], (List.append_nil _).symm, nil position⟩
        | cons c cs =>
            rw [readFrom] at hend ⊢
            split at hend
            · rename_i hblank
              obtain ⟨ls, same, holds⟩ := ih out _ cs (Nat.lt_of_succ_lt_succ hroom) hend
              rw [if_pos hblank]
              exact ⟨ls, same, blank hblank holds⟩
            · rename_i hblank
              rw [if_neg hblank]
              split at hend
              · rename_i t next rest hread
                obtain ⟨b, hvalid, -, cut, -⟩ := Token.exists_block hread
                have shorter : rest.length < room := by
                  have nonempty := List.length_pos_iff.mpr (Block.text_ne_nil hvalid)
                  have hlength := congrArg List.length cut
                  simp at hlength hroom
                  omega
                obtain ⟨ls, same, holds⟩ := ih _ _ rest shorter hend
                exact ⟨⟨t, position⟩ :: ls, by simp [same], token hread holds⟩
              · cases hend
  obtain ⟨ls, same, holds⟩ := go (cs.length + 1) [] 0 cs (Nat.lt_succ_self _) hend
  rwa [ofText, same]

/-- A text that is read to its end is a row of blocks.  They are spelled
where their tokens are separated. -/
theorem Lexed.exists_blocks {cs : List Char} {size : Nat} (hend : (ofText cs).ending = .ok size) :
    ∃ bs, Block.textOf bs = cs ∧ (ofText cs).tokens = Block.tokens bs ∧
      (Separated (Block.tokens bs) → Spelled bs) := by
  refine ofText_ok (P := fun _ cs ls => ∃ bs, Block.textOf bs = cs ∧
    ls.map (·.token) = Block.tokens bs ∧ (Separated (Block.tokens bs) → Spelled bs))
    (fun _ => ⟨[], rfl, rfl, fun _ => trivial⟩) ?_ ?_ hend
  · rintro n c cs ls hblank ⟨bs, rfl, tokens, spelled⟩
    exact ⟨.blank c :: bs, rfl, tokens, fun apart => ⟨hblank, trivial, spelled apart⟩⟩
  · rintro n next c cs rest t ls hread ⟨bs, rfl, tokens, spelled⟩
    obtain ⟨b, hvalid, ht, cut, hsign⟩ := Token.exists_block hread
    rw [← Block.textOf_cons] at cut
    refine ⟨b :: bs, cut.symm, by rw [List.map_cons, tokens, Block.tokens_cons_of_some ht], ?_⟩
    intro apart
    rw [Block.tokens_cons_of_some ht] at apart
    refine ⟨hvalid, ?_, spelled apart.tail⟩
    cases b with
    | blank c => trivial
    | name w =>
        cases ht
        exact (spelled apart.tail).endsWord (by simp) apart
    | number w x =>
        cases ht
        exact (spelled apart.tail).endsWord (by simp) apart
    | quoted q body s => trivial
    | sign w s =>
        cases ht
        exact hsign s rfl

/-- The texts of formulas are spelled with the tokens of a formula. -/
theorem Expr.ofChars_eq_ok_iff {cs : List Char} {e : Expr} :
    ofChars cs = .ok e ↔
      ∃ bs, Spelled bs ∧ Block.textOf bs = cs ∧
        Parser.parseTokens (Block.tokens bs) = .ok e := by
  constructor
  · intro h
    unfold ofChars at h
    dsimp only at h
    split at h
    · cases h
    · rename_i tree parsed
      split at h
      · rename_i size hend
        cases h
        obtain ⟨bs, eq, tokens, spelled⟩ := Lexed.exists_blocks hend
        rw [tokens] at parsed
        exact ⟨bs, spelled (Parser.separated_of_parseTokens parsed), eq, parsed⟩
      · cases h
  · rintro ⟨bs, spelled, rfl, parsed⟩
    obtain ⟨tokens, size, hend⟩ := spelled.lexed
    unfold ofChars
    simp only [tokens, parsed, hend]

end FormulaSheet
