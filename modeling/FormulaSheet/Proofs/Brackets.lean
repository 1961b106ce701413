import FormulaSheet.Outline.Arguments
import FormulaSheet.Outline.CallSite
import FormulaSheet.Proofs.Outlined

/-!
# Brackets in the text of a formula

The end of a call is found by counting parentheses, and its arguments by
counting brackets of every kind, on the characters of the text.  Both counts
are the same as on the tokens of a formula, where they come out even.

* `depthAfter` — the count on tokens; what counts is a matter of roles;
* `Derives.neutral` — what is derived leaves the depth as it is;
* `Outline.close?_outline`, `splitFrom_items` — the counts on a spelled text.
-/

namespace FormulaSheet

/-- What a symbol does to a count of brackets. -/
inductive Role where
  | opens | closes | splits | passes
deriving DecidableEq

/-- The roles of symbols where the end of a call is looked for. -/
def Symbol.parenRole : Symbol → Role
  | .openParen => .opens
  | .closeParen => .closes
  | _ => .passes

/-- The roles of symbols where arguments are split. -/
def Symbol.bracketRole : Symbol → Role
  | .openParen | .openBracket | .openBrace => .opens
  | .closeParen | .closeBracket | .closeBrace => .closes
  | .comma => .splits
  | _ => .passes

/-- How many brackets are open after tokens, if none closes that was not
opened and no token splits outside of brackets. -/
def depthAfter (role : Symbol → Role) : Nat → List Token → Option Nat
  | d, [] => some d
  | d, .symbol s :: ts =>
    match role s, d with
    | .opens, d => depthAfter role (d + 1) ts
    | .closes, 0 => none
    | .closes, d + 1 => depthAfter role d ts
    | .splits, 0 => none
    | .splits, d + 1 => depthAfter role (d + 1) ts
    | .passes, d => depthAfter role d ts
  | d, _ :: ts => depthAfter role d ts

/-- The brackets and the comma, as characters and as symbols. -/
def delimiters : List (Char × Symbol) := [
  ('(', .openParen), (')', .closeParen), ('[', .openBracket), (']', .closeBracket),
  ('\x7b', .openBrace), ('\x7d', .closeBrace), (',', .comma)]

/-- Brackets count in pairs or not at all, and commas count only where all
brackets do. -/
structure Bracketing (role : Symbol → Role) : Prop where
  pair : ∀ p ∈ [(Symbol.openParen, Symbol.closeParen), (.openBracket, .closeBracket),
      (.openBrace, .closeBrace)], (role p.1 = .opens ∧ role p.2 = .closes) ∨
    (role p.1 = .passes ∧ role p.2 = .passes ∧ role .comma = .passes)
  comma : role .comma = .splits ∨ role .comma = .passes
  other : ∀ s, s ∉ delimiters.map Prod.snd → role s = .passes

/-- The roles that count parentheses open and close in pairs. -/
theorem bracketing_parenRole : Bracketing Symbol.parenRole where
  pair := by decide
  comma := by decide
  other := by
    intro s hs
    cases s <;> first | rfl | exact absurd (by decide) hs

/-- So do those that count brackets and braces too. -/
theorem bracketing_bracketRole : Bracketing Symbol.bracketRole where
  pair := by decide
  comma := by decide
  other := by
    intro s hs
    cases s <;> first | rfl | exact absurd (by decide) hs

/-- Tokens that leave the depth as it is, wherever they stand. -/
def Neutral (role : Symbol → Role) (ts : List Token) : Prop :=
  ∀ d more, depthAfter role d (ts ++ more) = depthAfter role d more

section

variable {role : Symbol → Role}

/-- A symbol that neither opens nor closes keeps the depth. -/
theorem depthAfter_passes {s : Symbol} (h : role s = .passes) (d : Nat) (ts : List Token) :
    depthAfter role d (.symbol s :: ts) = depthAfter role d ts := by
  simp only [depthAfter, h]

/-- One that opens adds one to the depth. -/
theorem depthAfter_opens {s : Symbol} (h : role s = .opens) (d : Nat) (ts : List Token) :
    depthAfter role d (.symbol s :: ts) = depthAfter role (d + 1) ts := by
  simp only [depthAfter, h]

/-- One that closes takes one off. -/
theorem depthAfter_closes {s : Symbol} (h : role s = .closes) (d : Nat) (ts : List Token) :
    depthAfter role (d + 1) (.symbol s :: ts) = depthAfter role d ts := by
  simp only [depthAfter, h]

/-- What is neutral leads back to any depth. -/
theorem Neutral.depthAfter {ts : List Token} (h : Neutral role ts) (d : Nat) :
    depthAfter role d ts = some d := by
  have alone := h d []
  rwa [List.append_nil] at alone

/-- Neutral tokens stay so around a symbol that passes. -/
theorem Neutral.symbol {ts us : List Token} {s : Symbol} (hs : role s = .passes)
    (hts : Neutral role ts) (hus : Neutral role us) : Neutral role (ts ++ .symbol s :: us) := by
  intro d more
  rw [List.append_assoc, hts, List.cons_append, depthAfter_passes hs, hus]

/-- Commas do not split inside of brackets. -/
theorem depthAfter_joined (h : Bracketing role) {segments : List (List Token)}
    (all : ∀ ts ∈ segments, Neutral role ts) {d : Nat} (hd : 0 < d ∨ role .comma = .passes)
    (more : List Token) : depthAfter role d (joined segments ++ more) = depthAfter role d more := by
  induction segments with
  | nil => rfl
  | cons ts segments ih =>
      have hts := all ts List.mem_cons_self
      have rest := ih fun us hus => all us (List.mem_cons_of_mem _ hus)
      have comma : ∀ us, depthAfter role d (.symbol .comma :: us) = depthAfter role d us := by
        intro us
        rcases hd with hd | hd
        · obtain ⟨n, rfl⟩ := Nat.exists_eq_succ_of_ne_zero (by omega : d ≠ 0)
          rcases h.comma with hc | hc
          · simp only [depthAfter, hc]
          · exact depthAfter_passes hc _ _
        · exact depthAfter_passes hd _ _
      cases segments with
      | nil => rw [joined_singleton, hts]
      | cons us segments =>
          rw [joined_cons_cons, List.append_assoc, hts, List.cons_append, comma, rest]

/-- Brackets around lists of tokens with commas between them. -/
theorem Neutral.brackets (h : Bracketing role) {s t : Symbol}
    (hst : (s, t) ∈ [(Symbol.openParen, Symbol.closeParen), (.openBracket, .closeBracket),
      (.openBrace, .closeBrace)]) {segments : List (List Token)}
    (all : ∀ ts ∈ segments, Neutral role ts) :
    Neutral role (.symbol s :: (joined segments ++ [.symbol t])) := by
  intro d more
  rw [List.cons_append, List.append_assoc, List.cons_append, List.nil_append]
  rcases h.pair _ hst with ⟨hs, ht⟩ | ⟨hs, ht, hcomma⟩
  · rw [depthAfter_opens hs, depthAfter_joined h all (.inl (Nat.succ_pos d)),
      depthAfter_closes ht]
  · rw [depthAfter_passes hs, depthAfter_joined h all (.inr hcomma), depthAfter_passes ht]

/-- What is derived leaves the depth as it is. -/
theorem Derives.neutral (h : Bracketing role) {p : Phrase} {ts : List Token} {e : Expr}
    (derived : Derives p ts e) : Neutral role ts := by
  have items : ∀ {items : List ItemPhrase}, (∀ i ∈ items, Neutral role i.tokens) →
      ∀ ts ∈ items.map ItemPhrase.tokens, Neutral role ts := by
    intro items all ts hts
    obtain ⟨i, hi, rfl⟩ := List.mem_map.mp hts
    exact all i hi
  induction derived with
  | plain _ ih => exact ih
  | choice _ _ _ ihc ihy ihn =>
      exact ihc.symbol (h.other _ (by decide)) (ihy.symbol (h.other _ (by decide)) ihn)
  | tighter _ _ ih => exact ih
  | binary hop _ _ ihl ihr =>
      have table : ∀ t ∈ delimiters.map Prod.snd, t ∈ punctuation := by decide
      exact ihl.symbol (h.other _ fun hs =>
        notMem_punctuation_of_infixOp? hop (table _ hs)) ihr
  | top _ ih => exact ih
  | @sign s op ts e hop _ ih =>
      have hs : role s = .passes := by
        refine h.other _ ?_
        unfold prefixOp? at hop
        split at hop <;> first | decide | cases hop
      intro d more
      rw [List.cons_append, depthAfter_passes hs, ih]
  | base _ ih => exact ih
  | number x => exact fun _ _ => rfl
  | text s => exact fun _ _ => rfl
  | name s => exact fun _ _ => rfl
  | call s _ ih => exact fun d more => Neutral.brackets h (by decide) (items ih) d more
  | @paren ts e _ ih =>
      have one : Neutral role (.symbol .openParen :: (joined [ts] ++ [.symbol .closeParen])) :=
        Neutral.brackets h (by decide) (by simpa using ih)
      rwa [joined_singleton] at one
  | array _ ih => exact Neutral.brackets h (by decide) (items ih)
  | object hkeys _ ih =>
      refine Neutral.brackets h (by decide) ?_
      intro ts hts
      obtain ⟨f, hf, rfl⟩ := List.mem_map.mp hts
      intro d more
      have value : depthAfter role d (.symbol .colon :: (f.tokens ++ more)) =
          depthAfter role d more := by
        rw [depthAfter_passes (h.other _ (by decide)), ih f hf]
      have key := hkeys f hf
      rw [FieldPhrase.whole, List.cons_append, List.cons_append]
      cases hkey : f.key with
      | symbol s =>
          rw [hkey] at key
          cases key
      | name s => exact value
      | text s => exact value
      | number x => exact value

end

namespace Block

/-- A block is a bracket or a comma, or it has none. -/
theorem delimiter_or_plain {b : Block} (h : b.Valid) :
    (∃ p ∈ delimiters, b = .sign [p.1] p.2) ∨
      ((∀ c, Item.mark c ∈ b.items → c ∉ delimiters.map Prod.fst) ∧
        ∀ s, b.token? = some (.symbol s) → s ∉ delimiters.map Prod.snd) := by
  cases b with
  | blank c =>
      refine .inr ⟨?_, fun s hs => by cases hs⟩
      intro d hd hmem
      obtain rfl : d = c := by simpa [items] using hd
      have hblank : Character.isBlank d = true := h
      have none : (delimiters.map Prod.fst).all (fun e => !Character.isBlank e) = true := by decide
      have notBlank := List.all_eq_true.mp none d hmem
      rw [hblank] at notBlank
      cases notBlank
  | name w => exact .inr ⟨fun c hc => by simp [items] at hc, fun s hs => by cases hs⟩
  | number cs x =>
      refine .inr ⟨?_, fun s hs => by cases hs⟩
      intro c hc hmem
      have among : c ∈ cs := by
        rw [← Item.flatMap_text_ofText cs]
        exact List.mem_flatMap.mpr ⟨_, hc, by simp [Item.text]⟩
      have none : (delimiters.map Prod.fst).all
          (fun e => e.isDigit = false ∧ e ∉ ['.', 'e', 'E', '+', '-']) = true := by decide
      obtain ⟨notDigit, notOther⟩ := of_decide_eq_true (List.all_eq_true.mp none c hmem)
      rcases numeral_chars h.1 c among with hdigit | hother
      · rw [notDigit] at hdigit
        cases hdigit
      · exact notOther hother
  | quoted q body s =>
      refine .inr ⟨?_, fun s hs => by cases hs⟩
      intro c hc hmem
      obtain rfl : c = q := by simpa [items] using hc
      rcases h.1 with rfl | rfl <;> exact absurd hmem (by decide)
  | sign cs s =>
      have table : ∀ p ∈ signs, (∃ q ∈ delimiters, p.1 = [q.1] ∧ p.2 = q.2) ∨
          (p.1.all (fun c => c ∉ delimiters.map Prod.fst) = true ∧
            p.2 ∉ delimiters.map Prod.snd) := by decide
      rcases table _ h with ⟨q, hq, hcs, hs⟩ | ⟨hcs, hs⟩
      · exact .inl ⟨q, hq, by rw [← hcs, ← hs]⟩
      · refine .inr ⟨?_, ?_⟩
        · intro c hc
          obtain ⟨d, hd, eq⟩ := List.mem_map.mp hc
          cases eq
          exact of_decide_eq_true (List.all_eq_true.mp hcs c hd)
        · intro t ht
          cases ht
          exact hs

/-- What is no bracket and no comma leaves the depth as it is. -/
theorem depthAfter_plain {role : Symbol → Role} (h : Bracketing role) {b : Block}
    (plain : ∀ s, b.token? = some (.symbol s) → s ∉ delimiters.map Prod.snd) (d : Nat)
    (bs : List Block) :
    depthAfter role d (tokens (b :: bs)) = depthAfter role d (tokens bs) := by
  cases b with
  | sign cs s =>
      rw [tokens_sign]
      exact depthAfter_passes (h.other s (plain s rfl)) _ _
  | _ => rfl

end Block

namespace Outline

/-- An opening parenthesis makes the search go one deeper. -/
theorem close?_open (d : Nat) (inner o : Outline) :
    close? d inner (openParen :: o) = close? (d + 1) (openParen :: inner) o :=
  (close?.eq_def _ _ _).trans (if_pos rfl)

/-- A closing one leads back. -/
theorem close?_close (d : Nat) (inner o : Outline) :
    close? (d + 1) inner (closeParen :: o) = close? d (closeParen :: inner) o :=
  (close?.eq_def _ _ _).trans ((if_neg (by decide)).trans (if_pos rfl))

/-- The one that leads back to the start is what is sought. -/
theorem close?_end (inner o : Outline) :
    close? 0 inner (closeParen :: o) = some (inner.reverse, o) :=
  (close?.eq_def _ _ _).trans ((if_neg (by decide)).trans (if_pos rfl))

/-- Other pieces are what it closes around. -/
theorem close?_other {p : Piece} (h : p ≠ openParen ∧ p ≠ closeParen) (d : Nat)
    (inner o : Outline) : close? d inner (p :: o) = close? d (p :: inner) o :=
  (close?.eq_def _ _ _).trans ((if_neg h.1).trans (if_neg h.2))

/-- Pieces other than parentheses are passed over. -/
theorem close?_skip {o : Outline} (h : ∀ p ∈ o, p ≠ openParen ∧ p ≠ closeParen) (d : Nat)
    (inner rest : Outline) :
    close? d inner (o ++ rest) = close? d (o.reverse ++ inner) rest := by
  induction o generalizing inner with
  | nil => rfl
  | cons p o ih =>
      rw [List.cons_append, close?_other (h p List.mem_cons_self),
        ih fun q hq => h q (List.mem_cons_of_mem _ hq)]
      simp

/-- The pieces of a block that is no bracket are no parentheses. -/
theorem ne_paren_of_mem_pieces {b : Block}
    (plain : ∀ c, Item.mark c ∈ b.items → c ∉ delimiters.map Prod.fst) (next : List Block) :
    ∀ p ∈ b.pieces next, p ≠ openParen ∧ p ≠ closeParen := by
  have ofItems : ∀ p ∈ b.items.map Piece.plain, p ≠ openParen ∧ p ≠ closeParen := by
    intro p hp
    obtain ⟨i, hi, rfl⟩ := List.mem_map.mp hp
    refine ⟨?_, ?_⟩
    · intro eq
      cases eq
      exact plain _ hi (by decide)
    · intro eq
      cases eq
      exact plain _ hi (by decide)
  cases b with
  | name w =>
      intro p hp
      obtain rfl : p = Block.namePiece w next := by simpa [Block.pieces] using hp
      unfold Block.namePiece
      split
      · exact ⟨by simp [openParen], by simp [closeParen]⟩
      · split
        · exact ⟨by simp [openParen], by simp [closeParen]⟩
        · exact ⟨by simp [openParen], by simp [closeParen]⟩
  | _ => exact ofItems

/-- Parentheses are counted in an outline as they are among its tokens. -/
theorem close?_outline {bs : List Block} (hvalid : ∀ b ∈ bs, b.Valid) {d d' : Nat}
    (h : depthAfter Symbol.parenRole d (Block.tokens bs) = some d') (inner rest : Outline) :
    close? d inner (Block.outline bs ++ rest) =
      close? d' ((Block.outline bs).reverse ++ inner) rest := by
  induction bs generalizing d inner with
  | nil =>
      cases h
      rfl
  | cons b bs ih =>
      have hbs := fun c hc => hvalid c (List.mem_cons_of_mem _ hc)
      rcases Block.delimiter_or_plain (hvalid b List.mem_cons_self) with
        ⟨p, hp, rfl⟩ | ⟨marks, syms⟩
      · rw [Block.tokens_sign] at h
        have skip : ∀ {c : Char} {s : Symbol}, c ≠ '(' → c ≠ ')' →
            Symbol.parenRole s = .passes →
            depthAfter Symbol.parenRole d (.symbol s :: Block.tokens bs) = some d' →
            close? d inner (Block.outline (.sign [c] s :: bs) ++ rest) =
              close? d' ((Block.outline (.sign [c] s :: bs)).reverse ++ inner) rest := by
          intro c s hopen hclose hs h
          rw [depthAfter_passes hs] at h
          have plain : ∀ p ∈ [Piece.plain (.mark c)], p ≠ openParen ∧ p ≠ closeParen := by
            simp [openParen, closeParen, hopen, hclose]
          show close? d inner ([.plain (.mark c)] ++ (Block.outline bs ++ rest)) = _
          rw [close?_skip plain, ih hbs h]
          simp [Block.outline, Block.pieces, Block.items]
        simp only [delimiters, List.mem_cons, List.not_mem_nil, or_false] at hp
        rcases hp with rfl | rfl | rfl | rfl | rfl | rfl | rfl
        · rw [depthAfter_opens rfl] at h
          show close? d inner (openParen :: (Block.outline bs ++ rest)) = _
          rw [close?_open, ih hbs h]
          simp [Block.outline, Block.pieces, Block.items, openParen]
        · cases d with
          | zero => cases h
          | succ d =>
              rw [depthAfter_closes rfl] at h
              show close? (d + 1) inner (closeParen :: (Block.outline bs ++ rest)) = _
              rw [close?_close, ih hbs h]
              simp [Block.outline, Block.pieces, Block.items, closeParen]
        all_goals exact skip (by decide) (by decide) rfl h
      · rw [Block.depthAfter_plain bracketing_parenRole syms] at h
        rw [Block.outline, List.append_assoc, close?_skip (ne_paren_of_mem_pieces marks bs),
          ih hbs h]
        simp

end Outline

/-- Items other than brackets and commas are passed over. -/
theorem splitFrom_skip {items : List Item}
    (h : ∀ c, Item.mark c ∈ items → c ∉ delimiters.map Prod.fst) (d : Int)
    (segment : List Char) (out : List (List Char)) (rest : List Item) :
    splitFrom d segment out (items ++ rest) =
      splitFrom d ((items.flatMap Item.text).reverse ++ segment) out rest := by
  induction items generalizing segment with
  | nil => rfl
  | cons i items ih =>
      have hitems := ih fun c hc => h c (List.mem_cons_of_mem _ hc)
      have one : splitFrom d segment out (i :: (items ++ rest)) =
          splitFrom d (i.text.reverse ++ segment) out (items ++ rest) := by
        cases i with
        | word w => simp [splitFrom, List.reverseAux_eq]
        | hidden c => simp [splitFrom, List.reverseAux_eq]
        | mark c =>
            have plain := h c List.mem_cons_self
            simp only [delimiters, List.map_cons, List.map_nil, List.mem_cons, List.not_mem_nil,
              or_false, not_or] at plain
            simp [splitFrom, plain, Item.text]
      rw [List.cons_append, one, hitems]
      simp

/-- An opening bracket goes into the segment, one deeper. -/
theorem splitFrom_opening {c : Char} (h : c = '(' ∨ c = '[' ∨ c = '\x7b') (d : Int)
    (segment : List Char) (out : List (List Char)) (items : List Item) :
    splitFrom d segment out (.mark c :: items) = splitFrom (d + 1) (c :: segment) out items := by
  have notComma : c ≠ ',' := by
    rcases h with rfl | rfl | rfl <;> decide
  simp [splitFrom, notComma, h]

/-- A closing bracket goes into the segment, one less deep. -/
theorem splitFrom_closing {c : Char} (h : c = ')' ∨ c = ']' ∨ c = '\x7d') (d : Int)
    (segment : List Char) (out : List (List Char)) (items : List Item) :
    splitFrom d segment out (.mark c :: items) = splitFrom (d - 1) (c :: segment) out items := by
  have notOpen : c ≠ ',' ∧ c ≠ '(' ∧ c ≠ '[' ∧ c ≠ '\x7b' := by
    rcases h with rfl | rfl | rfl <;> decide
  simp [splitFrom, notOpen, h]

/-- A comma inside of brackets goes into the segment. -/
theorem splitFrom_comma {d : Int} (inside : d ≠ 0) (segment : List Char)
    (out : List (List Char)) (items : List Item) :
    splitFrom d segment out (.mark ',' :: items) = splitFrom d (',' :: segment) out items := by
  simp [splitFrom, inside]

/-- Brackets are counted in a text as they are among its tokens. -/
theorem splitFrom_items {bs : List Block} (hvalid : ∀ b ∈ bs, b.Valid) {d d' : Nat}
    (h : depthAfter Symbol.bracketRole d (Block.tokens bs) = some d') (segment : List Char)
    (out : List (List Char)) (rest : List Item) :
    splitFrom d segment out (bs.flatMap Block.items ++ rest) =
      splitFrom d' ((Block.textOf bs).reverse ++ segment) out rest := by
  induction bs generalizing d segment with
  | nil =>
      cases h
      rfl
  | cons b bs ih =>
      have hbs := fun c hc => hvalid c (List.mem_cons_of_mem _ hc)
      rw [List.flatMap_cons, List.append_assoc, Block.textOf_cons]
      rcases Block.delimiter_or_plain (hvalid b List.mem_cons_self) with
        ⟨p, hp, rfl⟩ | ⟨marks, syms⟩
      · rw [Block.tokens_sign] at h
        have opening : ∀ {c : Char} {s : Symbol}, c = '(' ∨ c = '[' ∨ c = '\x7b' →
            Symbol.bracketRole s = .opens →
            depthAfter Symbol.bracketRole d (.symbol s :: Block.tokens bs) = some d' →
            splitFrom d segment out (.mark c :: (bs.flatMap Block.items ++ rest)) =
              splitFrom d' ((Block.textOf bs).reverse ++ c :: segment) out rest := by
          intro c s hc hs h
          rw [depthAfter_opens hs] at h
          rw [splitFrom_opening hc, ← ih hbs h (c :: segment), Nat.cast_add_one]
        have closing : ∀ {c : Char} {s : Symbol}, c = ')' ∨ c = ']' ∨ c = '\x7d' →
            Symbol.bracketRole s = .closes →
            depthAfter Symbol.bracketRole d (.symbol s :: Block.tokens bs) = some d' →
            splitFrom d segment out (.mark c :: (bs.flatMap Block.items ++ rest)) =
              splitFrom d' ((Block.textOf bs).reverse ++ c :: segment) out rest := by
          intro c s hc hs h
          cases d with
          | zero => simp [depthAfter, hs] at h
          | succ d =>
              rw [depthAfter_closes hs] at h
              rw [splitFrom_closing hc, ← ih hbs h (c :: segment), Nat.cast_add_one,
                Int.add_sub_cancel]
        have comma : depthAfter Symbol.bracketRole d (.symbol .comma :: Block.tokens bs) = some d' →
            splitFrom d segment out (.mark ',' :: (bs.flatMap Block.items ++ rest)) =
              splitFrom d' ((Block.textOf bs).reverse ++ ',' :: segment) out rest := by
          intro h
          cases d with
          | zero => simp [depthAfter, Symbol.bracketRole] at h
          | succ d =>
              simp only [depthAfter, Symbol.bracketRole] at h
              rw [splitFrom_comma (by omega), ← ih hbs h (',' :: segment)]
        simp only [delimiters, List.mem_cons, List.not_mem_nil, or_false] at hp
        rcases hp with rfl | rfl | rfl | rfl | rfl | rfl | rfl
        · simpa [Block.text, Block.items] using opening (.inl rfl) rfl h
        · simpa [Block.text, Block.items] using closing (.inl rfl) rfl h
        · simpa [Block.text, Block.items] using opening (.inr (.inl rfl)) rfl h
        · simpa [Block.text, Block.items] using closing (.inr (.inl rfl)) rfl h
        · simpa [Block.text, Block.items] using opening (.inr (.inr rfl)) rfl h
        · simpa [Block.text, Block.items] using closing (.inr (.inr rfl)) rfl h
        · simpa [Block.text, Block.items] using comma h
      · rw [Block.depthAfter_plain bracketing_bracketRole syms] at h
        rw [splitFrom_skip marks, Block.flatMap_text_items, ih hbs h]
        simp

end FormulaSheet
