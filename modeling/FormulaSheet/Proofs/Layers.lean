import FormulaSheet.Proofs.Doubles
import FormulaSheet.Proofs.Grammar

/-!
# Formulas are the sentences of a layered grammar

The grammar as an author of formulas would write it down: nine layers from
loosest to tightest, each with its own operators, and no word of how a formula
is read.  `Derives` follows the parser and asks the parser's tables; here every
operator, every reserved word and every kind of key stands in a table of the
grammar's own, and the two are shown to derive the same.

* `Layered` — the grammar: the conditional associates to the right by the
  layers of its parts, infix operators to the left;
* `layered_iff_derives` — it derives what the parser's grammar derives;
* `Expr.parse_eq_ok_iff_sentence` — the texts that parse are those that are cut
  into the tokens of a sentence, and a sentence has one tree.
-/

namespace FormulaSheet

/-- The layers of the grammar, from loosest to tightest. -/
inductive Layer where
  | conditional | disjunction | conjunction | equality | relation | sum | product | unary
  | primary
deriving DecidableEq

namespace Layer

/-- The layer of the operands. -/
def tighter? : Layer → Option Layer
  | conditional => some disjunction
  | disjunction => some conjunction
  | conjunction => some equality
  | equality => some relation
  | relation => some sum
  | sum => some product
  | product => some unary
  | unary => some primary
  | primary => none

/-- The infix operators of a layer, and what each builds of its operands. -/
def operators : Layer → List (Symbol × (Expr → Expr → Expr))
  | disjunction => [(.either, .or)]
  | conjunction => [(.both, .and)]
  | equality => [(.equal, .binary .equal), (.notEqual, .binary .notEqual),
      (.identical, .binary .identical), (.notIdentical, .binary .notIdentical)]
  | relation => [(.less, .binary .less), (.lessEqual, .binary .lessEqual),
      (.greater, .binary .greater), (.greaterEqual, .binary .greaterEqual)]
  | sum => [(.plus, .binary .add), (.minus, .binary .sub)]
  | product => [(.star, .binary .mul), (.slash, .binary .div), (.percent, .binary .rem)]
  | conditional | unary | primary => []

/-- The operators before an operand. -/
def signs : List (Symbol × UnaryOp) := [(.minus, .neg), (.plus, .plus), (.bang, .not)]

/-- The words that stand for a value. -/
def words : List (String × Value) :=
  [("true", .bool true), ("false", .bool false), ("null", .null), ("undefined", .null),
    ("NaN", .number (.of Number.nan)), ("Infinity", .number (.of Number.infinity))]

end Layer

/-- The tokens that may be a key, and the name of the field. -/
inductive Token.Keys : Token → String → Prop
  | text (s : String) : Keys (.text s) s
  | name (s : String) : Keys (.name s) s
  | number (x : Float) : Keys (.number x) (Value.number (.of x)).toText

/-- `Layered layer ts e`: the tokens `ts` are on a layer and have the tree
`e`. -/
inductive Layered : Layer → List Token → Expr → Prop
  | tighter {layer next : Layer} {ts : List Token} {e : Expr} : layer.tighter? = some next →
      Layered next ts e → Layered layer ts e
  | choice {ts us vs : List Token} {c y n : Expr} : Layered .disjunction ts c →
      Layered .conditional us y → Layered .conditional vs n →
      Layered .conditional (ts ++ .symbol .question :: (us ++ .symbol .colon :: vs))
        (.conditional c y n)
  | binary {layer next : Layer} {s : Symbol} {build : Expr → Expr → Expr}
      {ts us : List Token} {l r : Expr} : layer.tighter? = some next →
      (s, build) ∈ layer.operators → Layered layer ts l → Layered next us r →
      Layered layer (ts ++ .symbol s :: us) (build l r)
  | sign {s : Symbol} {op : UnaryOp} {ts : List Token} {e : Expr} : (s, op) ∈ Layer.signs →
      Layered .unary ts e → Layered .unary (.symbol s :: ts) (.unary op e)
  | number (x : Float) : Layered .primary [.number x] (.literal (.number (.of x)))
  | text (s : String) : Layered .primary [.text s] (.literal (.text s))
  | word {s : String} {v : Value} : (s, v) ∈ Layer.words →
      Layered .primary [.name s] (.literal v)
  | name {s : String} : s ∉ Layer.words.map (·.1) → Layered .primary [.name s] (.name s)
  | call (s : String) {items : List ItemPhrase} :
      (∀ i ∈ items, Layered .conditional i.tokens i.tree) →
      Layered .primary
        (.name s :: .symbol .openParen ::
          (joined (items.map ItemPhrase.tokens) ++ [.symbol .closeParen]))
        (.call s (items.map ItemPhrase.tree))
  | paren {ts : List Token} {e : Expr} : Layered .conditional ts e →
      Layered .primary (.symbol .openParen :: (ts ++ [.symbol .closeParen])) e
  | array {items : List ItemPhrase} :
      (∀ i ∈ items, Layered .conditional i.tokens i.tree) →
      Layered .primary
        (.symbol .openBracket ::
          (joined (items.map ItemPhrase.tokens) ++ [.symbol .closeBracket]))
        (.array (items.map ItemPhrase.tree))
  | object {fields : List FieldPhrase} : (∀ f ∈ fields, f.key.Keys f.name) →
      (∀ f ∈ fields, Layered .conditional f.tokens f.tree) →
      Layered .primary
        (.symbol .openBrace :: (joined (fields.map FieldPhrase.whole) ++ [.symbol .closeBrace]))
        (.object (fields.map FieldPhrase.field))

/-- The tokens of an expression, perhaps with one semicolon at the end. -/
def Sentence (ts : List Token) (e : Expr) : Prop :=
  ∃ body, (ts = body ∨ ts = body ++ [.symbol .semicolon]) ∧ Layered .conditional body e

/-- The text of a number is the key that it makes. -/
theorem toText_number (x : Float) :
    (Value.number (.of x)).toText = String.ofList (Number.text x) := by
  simp [Value.toText, Value.textOnto]

/-- What is taken for a key is one. -/
theorem keyOf?_eq_some_iff {t : Token} {key : String} : keyOf? t = some key ↔ t.Keys key := by
  constructor
  · intro h
    cases t with
    | text s => cases h; exact .text _
    | name s => cases h; exact .name _
    | number x => cases h; exact toText_number x ▸ .number x
    | symbol s => cases h
  · intro h
    cases h with
    | text => rfl
    | name => rfl
    | number x => exact congrArg some (toText_number x).symm

/-- What is taken for a sign is one. -/
theorem prefixOp?_eq_some_iff {s : Symbol} {op : UnaryOp} :
    prefixOp? s = some op ↔ (s, op) ∈ Layer.signs := by
  cases s <;> cases op <;> decide

/-- No word is there twice. -/
theorem reservedValue?_eq_some_iff {s : String} {v : Value} :
    reservedValue? s = some v ↔ (s, v) ∈ Layer.words := by
  constructor
  · intro h
    unfold reservedValue? at h
    split_ifs at h <;> cases h <;> simp_all [Layer.words]
  · intro h
    simp only [Layer.words, List.mem_cons, Prod.mk.injEq, List.not_mem_nil, or_false] at h
    rcases h with ⟨rfl, rfl⟩ | ⟨rfl, rfl⟩ | ⟨rfl, rfl⟩ | ⟨rfl, rfl⟩ | ⟨rfl, rfl⟩ | ⟨rfl, rfl⟩ <;>
      simp [reservedValue?]

/-- A name has no value of its own unless it is a reserved word. -/
theorem reservedValue?_eq_none_iff {s : String} :
    reservedValue? s = none ↔ s ∉ Layer.words.map (·.1) := by
  rw [Option.eq_none_iff_forall_ne_some]
  simp only [ne_eq, reservedValue?_eq_some_iff, List.mem_map, Prod.exists, exists_and_right,
    exists_eq_right, not_exists]

namespace Layer

/-- The phrase of the parser's grammar that a layer is. -/
def phrase : Layer → Phrase
  | conditional => .conditional
  | disjunction => .level 0
  | conjunction => .level 1
  | equality => .level 2
  | relation => .level 3
  | sum => .level 4
  | product => .level 5
  | unary => .signed
  | primary => .primary

end Layer

/-- The layer that a phrase of the parser's grammar is. -/
def Phrase.layer : Phrase → Layer
  | conditional => .conditional
  | level 0 => .disjunction
  | level 1 => .conjunction
  | level 2 => .equality
  | level 3 => .relation
  | level 4 => .sum
  | level 5 => .product
  | level _ => .unary
  | signed => .unary
  | primary => .primary

/-- A layer is that of its phrase. -/
theorem Layer.layer_phrase (layer : Layer) : layer.phrase.layer = layer := by
  cases layer <;> rfl

/-- A level is next to the one above it. -/
theorem Phrase.tighter?_layer {k : Nat} (h : k < infixLevels) :
    (level k).layer.tighter? = some (level (k + 1)).layer := by
  have each : ∀ k < infixLevels, (level k).layer.tighter? = some (level (k + 1)).layer := by
    decide
  exact each k h

/-- An operator is among those of its level. -/
theorem Phrase.mem_operators_layer {k : Nat} {s : Symbol} {build : Expr → Expr → Expr}
    (h : infixOp? k s = some build) : (s, build) ∈ (level k).layer.operators := by
  unfold infixOp? at h
  split at h <;> cases h <;> simp [layer, Layer.operators]

/-- An infix operator is one of the parser's on the level of its layer. -/
theorem Layer.infixOp?_of_mem {layer : Layer} {s : Symbol} {build : Expr → Expr → Expr}
    (h : (s, build) ∈ layer.operators) :
    ∃ k, layer.phrase = .level k ∧ infixOp? k s = some build := by
  cases layer <;>
    simp only [operators, List.mem_cons, Prod.mk.injEq, List.not_mem_nil, or_false] at h
  case disjunction => obtain ⟨rfl, rfl⟩ := h; exact ⟨0, rfl, rfl⟩
  case conjunction => obtain ⟨rfl, rfl⟩ := h; exact ⟨1, rfl, rfl⟩
  case equality =>
      refine ⟨2, rfl, ?_⟩
      rcases h with ⟨rfl, rfl⟩ | ⟨rfl, rfl⟩ | ⟨rfl, rfl⟩ | ⟨rfl, rfl⟩ <;> rfl
  case relation =>
      refine ⟨3, rfl, ?_⟩
      rcases h with ⟨rfl, rfl⟩ | ⟨rfl, rfl⟩ | ⟨rfl, rfl⟩ | ⟨rfl, rfl⟩ <;> rfl
  case sum =>
      refine ⟨4, rfl, ?_⟩
      rcases h with ⟨rfl, rfl⟩ | ⟨rfl, rfl⟩ <;> rfl
  case product =>
      refine ⟨5, rfl, ?_⟩
      rcases h with ⟨rfl, rfl⟩ | ⟨rfl, rfl⟩ | ⟨rfl, rfl⟩ <;> rfl

namespace Derives

variable {layer next : Layer} {ts : List Token} {e : Expr}

/-- What is on a tighter layer is on every looser one. -/
theorem loosen (h : layer.tighter? = some next) (derived : Derives next.phrase ts e) :
    Derives layer.phrase ts e := by
  cases layer <;> cases h
  case conditional => exact .plain derived
  case product => exact .tighter (by decide) (.top derived)
  case unary => exact .base derived
  all_goals exact .tighter (by decide) derived

/-- The operands of a level are on the next one, the last of which is that of
the sign operators. -/
theorem operand {k : Nat} (level : layer.phrase = .level k) (h : layer.tighter? = some next)
    (derived : Derives next.phrase ts e) : Derives (.level (k + 1)) ts e := by
  cases layer <;> cases level <;> cases h
  case product => exact .top derived
  all_goals exact derived

/-- What the parser's grammar derives is on the layer of the phrase. -/
theorem layered {p : Phrase} (h : Derives p ts e) : Layered p.layer ts e := by
  induction h with
  | plain _ ih => exact .tighter rfl ih
  | choice _ _ _ ihc ihy ihn => exact .choice ihc ihy ihn
  | tighter below _ ih => exact .tighter (Phrase.tighter?_layer below) ih
  | binary op _ _ ihl ihr =>
      exact .binary (Phrase.tighter?_layer (lt_infixLevels_of_infixOp? op))
        (Phrase.mem_operators_layer op) ihl ihr
  | top _ ih => exact ih
  | sign op _ ih => exact .sign (prefixOp?_eq_some_iff.mp op) ih
  | base _ ih => exact .tighter rfl ih
  | number x => exact .number x
  | text s => exact .text s
  | name s =>
      unfold nameExpr
      cases word : reservedValue? s with
      | some v => exact .word (reservedValue?_eq_some_iff.mp word)
      | none => exact .name (reservedValue?_eq_none_iff.mp word)
  | call s _ ih => exact .call s ih
  | paren _ ih => exact .paren ih
  | array _ ih => exact .array ih
  | object keys _ ih => exact .object (fun f hf => keyOf?_eq_some_iff.mp (keys f hf)) ih

end Derives

/-- What is on a layer is derived by the parser's grammar. -/
theorem Layered.derives {layer : Layer} {ts : List Token} {e : Expr} (h : Layered layer ts e) :
    Derives layer.phrase ts e := by
  induction h with
  | tighter next _ ih => exact .loosen next ih
  | choice _ _ _ ihc ihy ihn => exact .choice ihc ihy ihn
  | binary next op _ _ ihl ihr =>
      obtain ⟨k, level, found⟩ := Layer.infixOp?_of_mem op
      rw [level] at ihl ⊢
      exact .binary found ihl (.operand level next ihr)
  | sign op _ ih => exact .sign (prefixOp?_eq_some_iff.mpr op) ih
  | number x => exact .number x
  | text s => exact .text s
  | @word s v word =>
      have derived := Derives.name s
      rwa [nameExpr, reservedValue?_eq_some_iff.mpr word] at derived
  | @name s free =>
      have derived := Derives.name s
      rwa [nameExpr, reservedValue?_eq_none_iff.mpr free] at derived
  | call s _ ih => exact .call s ih
  | paren _ ih => exact .paren ih
  | array _ ih => exact .array ih
  | object keys _ ih => exact .object (fun f hf => keyOf?_eq_some_iff.mpr (keys f hf)) ih

/-- The two grammars derive the same. -/
theorem layered_iff_derives {layer : Layer} {ts : List Token} {e : Expr} :
    Layered layer ts e ↔ Derives layer.phrase ts e :=
  ⟨Layered.derives, fun h => layer.layer_phrase ▸ h.layered⟩

/-- The parser takes tokens exactly if they are a sentence, and makes the tree
of it. -/
theorem sentence_iff_parseTokens {ts : List Token} {e : Expr} :
    Sentence ts e ↔ Parser.parseTokens ts = .ok e := by
  simp only [Parser.parseTokens_eq_ok_iff, Sentence, layered_iff_derives, Layer.phrase]

/-- **Formulas are the sentences of the layered grammar.**  A text that is cut
into tokens without a fault parses exactly if its tokens are a sentence, and
its tree is that of the sentence; a text with a fault anywhere is refused; and
no tokens are a sentence in two ways. -/
theorem Expr.parse_eq_ok_iff_sentence :
    (∀ text e, (Lexed.ofText text.toList).ending.isOk →
      (Expr.parse text = .ok e ↔ Sentence (Lexed.ofText text.toList).tokens e)) ∧
    (∀ text fault, (Lexed.ofText text.toList).ending = .error fault →
      ∃ cause, Expr.parse text = .error cause) ∧
    ∀ ts e e', Sentence ts e → Sentence ts e' → e = e' := by
  refine ⟨?_, ?_, ?_⟩
  · intro text e clean
    rw [sentence_iff_parseTokens, Expr.parse, Expr.ofChars]
    cases ended : (Lexed.ofText text.toList).ending with
    | error f => rw [ended] at clean; cases clean
    | ok size =>
        cases Parser.parseTokens (Lexed.ofText text.toList).tokens with
        | error s => exact iff_of_false (fun h => nomatch h) (fun h => nomatch h)
        | ok tree => simp only [Except.ok.injEq]
  · intro text fault ended
    rw [Expr.parse, Expr.ofChars]
    cases Parser.parseTokens (Lexed.ofText text.toList).tokens with
    | error s => exact ⟨_, rfl⟩
    | ok tree => exact ⟨fault.toError, by rw [ended]⟩
  · intro ts e e' first second
    have same := (sentence_iff_parseTokens.mp first).symm.trans (sentence_iff_parseTokens.mp second)
    exact Except.ok.inj same

/-- Two differences and a sign within a conditional, derived by hand; and a
single equals sign, which is no token. -/
theorem parse_eq_ok_iff_sentence_differences :
    let tokens : List Token := [.name "a", .symbol .minus, .name "b", .symbol .minus, .name "c",
      .symbol .question, .symbol .minus, .name "x", .symbol .colon, .name "NaN",
      .symbol .semicolon]
    let tree := Expr.conditional
      (.binary .sub (.binary .sub (.name "a") (.name "b")) (.name "c"))
      (.unary .neg (.name "x")) (.literal (.number (.of Number.nan)))
    (Lexed.ofText "a - b - c ? -x : NaN;".toList).ending.isOk ∧
      (Lexed.ofText "a - b - c ? -x : NaN;".toList).tokens = tokens ∧ Sentence tokens tree ∧
      Expr.parse "a - b - c ? -x : NaN;" = .ok tree ∧ (∀ e, Sentence tokens e → e = tree) ∧
      ∃ cause, Expr.parse "a = b" = .error cause := by
  intro tokens tree
  have clean : (Lexed.ofText "a - b - c ? -x : NaN;".toList).ending.isOk := by decide +kernel
  have cut : (Lexed.ofText "a - b - c ? -x : NaN;".toList).tokens = tokens := by decide +kernel
  have fault : ∃ f, (Lexed.ofText "a = b".toList).ending = .error f := by
    have unclean : (Lexed.ofText "a = b".toList).ending.isOk = false := by decide +kernel
    cases ended : (Lexed.ofText "a = b".toList).ending with
    | error f => exact ⟨f, rfl⟩
    | ok size => rw [ended] at unclean; cases unclean
  have operand : ∀ s, s ∉ Layer.words.map (·.1) → Layered .unary [.name s] (.name s) :=
    fun s free => .tighter rfl (.name free)
  have factor : ∀ s, s ∉ Layer.words.map (·.1) → Layered .product [.name s] (.name s) :=
    fun s free => .tighter rfl (operand s free)
  have disjunction : ∀ {ts e}, Layered .sum ts e → Layered .disjunction ts e :=
    fun h => .tighter rfl (.tighter rfl (.tighter rfl (.tighter rfl h)))
  have alone : ∀ {ts e}, Layered .unary ts e → Layered .conditional ts e :=
    fun h => .tighter rfl (disjunction (.tighter rfl (.tighter rfl h)))
  have first : Layered .sum [.name "a", .symbol .minus, .name "b"]
      (.binary .sub (.name "a") (.name "b")) :=
    .binary rfl (.tail _ (.head _)) (.tighter rfl (factor "a" (by decide)))
      (factor "b" (by decide))
  have both : Layered .sum [.name "a", .symbol .minus, .name "b", .symbol .minus, .name "c"]
      (.binary .sub (.binary .sub (.name "a") (.name "b")) (.name "c")) :=
    .binary rfl (.tail _ (.head _)) first (factor "c" (by decide))
  have sentence : Sentence tokens tree := ⟨_, .inr rfl, .choice (disjunction both)
    (alone (.sign (.head _) (operand "x" (by decide))))
    (alone (.tighter rfl (.word (by simp [Layer.words]))))⟩
  obtain ⟨accepted, refused, unique⟩ := Expr.parse_eq_ok_iff_sentence
  refine ⟨clean, cut, sentence, (accepted _ _ clean).mpr (cut ▸ sentence),
    fun e h => unique tokens e tree h sentence, ?_⟩
  obtain ⟨f, ended⟩ := fault
  exact refused _ f ended

end FormulaSheet
