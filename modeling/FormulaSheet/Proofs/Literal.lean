import FormulaSheet.Proofs.Doubles
import FormulaSheet.Proofs.Outlined

/-!
# Literals are read back

The literal of a value is formula text for a tree that is plain data with that
value.  This holds of values whose numbers are read back from their texts,
which is so of no negative zero: both zeros are written `0`, and every NaN
alike.

* `Value.Legible` — the values that are read back;
* `Value.Legible.exists_writing` — their literals are spelled, derived and plain data;
* `Expr.evaluate_of_asLiteral?` — plain data evaluates to its value.
-/

namespace FormulaSheet

namespace Number

/-- A number that reading finds again: one of the three that go by name, or
one that its text is a decimal of. -/
def ReadsBack (x : Float) : Prop :=
  x = nan ∨ x = infinity ∨ x = -infinity ∨ ofDecimal? (text x) = some x

instance (x : Float) : Decidable (ReadsBack x) := by
  unfold ReadsBack
  infer_instance

/-- What is read as an exponent is spelled like one. -/
theorem isExponent_of_readExponent? {cs : List Char} {e : Int}
    (h : readExponent? cs = some e) : IsExponent cs := by
  cases cs with
  | nil => exact .none
  | cons c cs =>
      rw [readExponent?] at h
      split at h
      · rename_i hc
        rcases hsign : takeSign cs with ⟨negative, ds⟩
        rw [hsign] at h
        dsimp only at h
        split at h
        · cases h
        · rename_i hds
          simp only [not_or, Bool.not_eq_true, List.isEmpty_eq_false_iff, List.any_eq_false] at hds
          have digits : ∀ d ∈ ds, d.isDigit = true := by
            intro d hd
            simpa using hds.2 d hd
          have cut : ∃ sign ∈ [[], ['+'], ['-']], cs = sign ++ ds := by
            unfold takeSign at hsign
            split at hsign <;> cases hsign
            · exact ⟨['-'], by simp, rfl⟩
            · exact ⟨['+'], by simp, rfl⟩
            · exact ⟨[], by simp, rfl⟩
          obtain ⟨sign, hmem, rfl⟩ := cut
          exact .some hc hmem hds.1 digits
      · cases h

/-- What reads as a number is spelled like one. -/
theorem isNumeral_of_ofUnsigned? {cs : List Char} {x : Float} (h : ofUnsigned? cs = some x) :
    IsNumeral cs := by
  have digits : ∀ cs : List Char, ∀ d ∈ cs.takeWhile Char.isDigit, d.isDigit = true :=
    fun cs d hd => List.all_eq_true.mp List.all_takeWhile d hd
  have cut := List.takeWhile_append_dropWhile (p := Char.isDigit) (l := cs)
  have hwhole := digits cs
  unfold ofUnsigned? at h
  dsimp only at h
  generalize cs.takeWhile Char.isDigit = whole at h cut hwhole
  generalize cs.dropWhile Char.isDigit = rest at h cut
  subst cut
  have body : ∀ {ds : List Char}, (∀ d ∈ ds, d.isDigit = true) →
      ∀ d ∈ ds, (d.isDigit || d == '.') = true := fun h d hd => by simp [h d hd]
  split at h
  · rename_i more
    have hfraction := digits more
    have cut := List.takeWhile_append_dropWhile (p := Char.isDigit) (l := more)
    dsimp only at h
    generalize more.takeWhile Char.isDigit = fraction at h cut hfraction
    generalize more.dropWhile Char.isDigit = tail at h cut
    subst cut
    split at h
    · cases h
    · rename_i some_digit
      obtain ⟨e, he, -⟩ := Option.map_eq_some_iff.mp h
      have hexponent := isExponent_of_readExponent? he
      cases whole with
      | nil =>
          cases fraction with
          | nil => simp at some_digit
          | cons c fraction =>
              obtain ⟨hc, hrest⟩ := List.forall_mem_cons.mp hfraction
              exact .point hc (body hrest) hexponent
      | cons c whole =>
          obtain ⟨hc, hrest⟩ := List.forall_mem_cons.mp hwhole
          have all : ∀ d ∈ whole ++ '.' :: fraction, (d.isDigit || d == '.') = true :=
            List.forall_mem_append.mpr ⟨body hrest,
              List.forall_mem_cons.mpr ⟨by decide, body hfraction⟩⟩
          have numeral := IsNumeral.digit hc all hexponent
          simpa using numeral
  · dsimp only at h
    split at h
    · cases h
    · rename_i some_digit
      obtain ⟨e, he, -⟩ := Option.map_eq_some_iff.mp h
      have hexponent := isExponent_of_readExponent? he
      cases whole with
      | nil => simp at some_digit
      | cons c whole =>
          obtain ⟨hc, hrest⟩ := List.forall_mem_cons.mp hwhole
          exact .digit hc (body hrest) hexponent

/-- The text of a number is a name, or digits and points, behind a minus sign or
nothing. -/
theorem text_cases (x : Float) :
    text x = "NaN".toList ∨ ∃ sign cs, text x = signText sign ++ cs ∧
      (cs = "Infinity".toList ∨ cs ≠ [] ∧ ∀ c ∈ cs, c.isDigit = true ∨ c = '.') := by
  have numerals : ∀ n : Nat, ∀ c ∈ Nat.toDigits 10 n, c.isDigit = true ∨ c = '.' :=
    fun n c hc => .inl (Nat.isDigit_of_mem_toDigits (by decide) (by decide) hc)
  have zeros : ∀ n, ∀ c ∈ List.replicate n '0', c.isDigit = true ∨ c = '.' := by
    intro n c hc
    rw [List.eq_of_mem_replicate hc]
    exact .inl (by decide)
  have positional : ∀ d : Decimal,
      d.positional ≠ [] ∧ ∀ c ∈ d.positional, c.isDigit = true ∨ c = '.' := by
    intro d
    unfold Decimal.positional
    dsimp only
    split
    · refine ⟨by simp [Decimal.numerals, Nat.toDigits_ne_nil], fun c hc => ?_⟩
      exact (List.mem_append.mp hc).elim (numerals _ c) (zeros _ c)
    · split
      · refine ⟨by simp, fun c hc => ?_⟩
        rcases List.mem_append.mp hc with hc | hc
        · exact numerals _ c (List.mem_of_mem_take hc)
        · rcases List.mem_cons.mp hc with rfl | hc
          · exact .inr rfl
          · exact numerals _ c (List.mem_of_mem_drop hc)
      · refine ⟨by simp, fun c hc => ?_⟩
        rcases List.mem_append.mp hc with hc | hc
        · rcases List.mem_cons.mp hc with rfl | hc
          · exact .inl (by decide)
          · rcases List.mem_cons.mp hc with rfl | hc
            · exact .inr rfl
            · exact zeros _ c hc
        · exact numerals _ c hc
  unfold text
  split
  · exact .inl rfl
  · exact .inr ⟨_, _, rfl, .inl rfl⟩
  · exact .inr ⟨.positive, ['0'], rfl, .inr ⟨by simp, zeros 1⟩⟩
  · refine .inr ⟨_, _, rfl, .inr ?_⟩
    split
    · exact ⟨Nat.toDigits_ne_nil, numerals _⟩
    · dsimp only
      split
      · exact ⟨Nat.toDigits_ne_nil, numerals _⟩
      · exact positional _

/-- No text of a number begins with a plus sign. -/
theorem text_ne_plus (x : Float) (cs : List Char) : text x ≠ '+' :: cs := by
  intro eq
  have first : ∀ {ds : List Char}, ds = '+' :: cs → ¬ ∀ d ∈ ds, d.isDigit = true ∨ d = '.' := by
    rintro ds rfl hds
    exact absurd (hds '+' List.mem_cons_self) (by decide)
  rcases text_cases x with name | ⟨sign, ds, signed, name | ⟨-, digits⟩⟩
  · rw [name] at eq
    cases eq
  · rw [signed, name] at eq
    cases sign <;> cases eq
  · rw [signed] at eq
    cases sign with
    | negative => cases eq
    | positive => exact first eq digits

end Number

/-- Quoted text is what it stands for. -/
theorem quotes_escapeChar (cs : List Char) : Quotes '"' (cs.flatMap escapeChar) cs := by
  have control : ∀ n < 160, escapedCode? (Character.hexDigit (n / 4096))
      (Character.hexDigit (n / 256)) (Character.hexDigit (n / 16)) (Character.hexDigit n) =
        some (Char.ofNat n) := by decide +kernel
  induction cs with
  | nil => exact .nil
  | cons c cs ih =>
      rw [List.flatMap_cons]
      unfold escapeChar
      split
      · exact .escape (by decide) ih
      · exact .escape (by decide) ih
      · exact .escape (by decide) ih
      · exact .escape (by decide) ih
      · exact .escape (by decide) ih
      · rename_i hquote hslash _ _ _
        split
        · rename_i hcontrol
          have below : c.toNat < 160 := by
            simp only [Character.isControl, Bool.or_eq_true, Bool.and_eq_true,
              decide_eq_true_eq] at hcontrol
            omega
          have code := control c.toNat below
          rw [Char.ofNat_toNat] at code
          exact .code code ih
        · exact .plain hquote hslash ih

namespace Value

/-- The values that are read back from their literals: every number is, a NaN
with its bits, and objects have their fields in order. -/
inductive Legible : Value → Prop
  | null : Legible .null
  | bool (b : Bool) : Legible (.bool b)
  | number {x : Double} : Number.ReadsBack x.float → x.Regular → Legible (.number x)
  | text (s : String) : Legible (.text s)
  | array {vs : List Value} : (∀ v ∈ vs, Legible v) → Legible (.array vs)
  | object {fs : Entries Value} : fs.Ascending → (∀ f ∈ fs, Legible f.2) →
      Legible (.object fs)

mutual

/-- Decides whether a value is legible. -/
def decideLegible : (v : Value) → Decidable v.Legible
  | .null => .isTrue .null
  | .bool b => .isTrue (.bool b)
  | .number x => decidable_of_iff (Number.ReadsBack x.float ∧ x.Regular)
      ⟨fun h => .number h.1 h.2, fun | .number h regular => ⟨h, regular⟩⟩
  | .text s => .isTrue (.text s)
  | .array vs =>
    match decideLegibleItems vs with
    | .isTrue h => .isTrue (.array h)
    | .isFalse h => .isFalse fun | .array all => h all
  | .object fs =>
    match decideLegibleFields fs with
    | .isFalse h => .isFalse fun | .object _ all => h all
    | .isTrue h =>
      have : Decidable (Entries.Ascending fs) :=
        inferInstanceAs (Decidable (fs.Pairwise fun x y => x.1 < y.1))
      decidable_of_iff (Entries.Ascending fs)
        ⟨fun asc => .object asc h, fun | .object asc _ => asc⟩

/-- Decides whether all items are legible. -/
def decideLegibleItems : (vs : List Value) → Decidable (∀ v ∈ vs, v.Legible)
  | [] => .isTrue (List.forall_mem_nil _)
  | v :: vs =>
    match decideLegible v, decideLegibleItems vs with
    | .isTrue h, .isTrue hs => .isTrue (List.forall_mem_cons.mpr ⟨h, hs⟩)
    | .isFalse h, _ => .isFalse fun all => h (List.forall_mem_cons.mp all).1
    | _, .isFalse hs => .isFalse fun all => hs (List.forall_mem_cons.mp all).2

/-- Decides whether the values of all fields are legible. -/
def decideLegibleFields : (fs : List (String × Value)) → Decidable (∀ f ∈ fs, f.2.Legible)
  | [] => .isTrue (List.forall_mem_nil _)
  | (_, v) :: fs =>
    match decideLegible v, decideLegibleFields fs with
    | .isTrue h, .isTrue hs => .isTrue (List.forall_mem_cons.mpr ⟨h, hs⟩)
    | .isFalse h, _ => .isFalse fun all => h (List.forall_mem_cons.mp all).1
    | _, .isFalse hs => .isFalse fun all => hs (List.forall_mem_cons.mp all).2

end

instance : DecidablePred Legible := decideLegible

mutual

/-- A literal is put before what is there. -/
theorem literalOnto_eq_append (out : List Char) : ∀ v : Value,
    literalOnto out v = literalOnto [] v ++ out
  | null => by simp [literalOnto]
  | bool b => by simp [literalOnto]
  | number x => by simp [literalOnto]
  | text s => by simp [literalOnto]
  | array vs => by
    rw [literalOnto, literalOnto, itemLiteralsOnto_eq_append, itemLiteralsOnto_eq_append ['[']]
    simp
  | object fs => by
    rw [literalOnto, literalOnto, fieldLiteralsOnto_eq_append, fieldLiteralsOnto_eq_append ['\x7b']]
    simp

/-- So are the literals of items. -/
theorem itemLiteralsOnto_eq_append (out : List Char) : ∀ vs : List Value,
    itemLiteralsOnto out vs = itemLiteralsOnto [] vs ++ out
  | [] => by simp [itemLiteralsOnto]
  | v :: vs => by
    rw [itemLiteralsOnto, itemLiteralsOnto, moreItemLiteralsOnto_eq_append,
      moreItemLiteralsOnto_eq_append (literalOnto [] v), literalOnto_eq_append]
    simp

/-- So are those of the items after the first. -/
theorem moreItemLiteralsOnto_eq_append (out : List Char) : ∀ vs : List Value,
    moreItemLiteralsOnto out vs = moreItemLiteralsOnto [] vs ++ out
  | [] => by simp [moreItemLiteralsOnto]
  | v :: vs => by
    rw [moreItemLiteralsOnto, moreItemLiteralsOnto, moreItemLiteralsOnto_eq_append,
      moreItemLiteralsOnto_eq_append (literalOnto [' ', ','] v), literalOnto_eq_append,
      literalOnto_eq_append [' ', ',']]
    simp

/-- So are the literals of fields. -/
theorem fieldLiteralsOnto_eq_append (out : List Char) : ∀ fs : List (String × Value),
    fieldLiteralsOnto out fs = fieldLiteralsOnto [] fs ++ out
  | [] => by simp [fieldLiteralsOnto]
  | (k, v) :: fs => by
    rw [fieldLiteralsOnto, fieldLiteralsOnto, moreFieldLiteralsOnto_eq_append,
      moreFieldLiteralsOnto_eq_append (literalOnto _ v), literalOnto_eq_append,
      literalOnto_eq_append (' ' :: ':' :: List.reverseAux (quote k.toList) [])]
    simp

/-- So are those of the fields after the first. -/
theorem moreFieldLiteralsOnto_eq_append (out : List Char) : ∀ fs : List (String × Value),
    moreFieldLiteralsOnto out fs = moreFieldLiteralsOnto [] fs ++ out
  | [] => by simp [moreFieldLiteralsOnto]
  | (k, v) :: fs => by
    rw [moreFieldLiteralsOnto, moreFieldLiteralsOnto, moreFieldLiteralsOnto_eq_append,
      moreFieldLiteralsOnto_eq_append (literalOnto _ v), literalOnto_eq_append,
      literalOnto_eq_append (' ' :: ':' :: List.reverseAux (quote k.toList) [' ', ','])]
    simp

end

/-- Texts with a comma and a blank between them. -/
def listed : List (List Char) → List Char
  | [] => []
  | t :: ts => t ++ ts.flatMap (fun t => ',' :: ' ' :: t)

/-- The literal of a field. -/
def fieldLiteral (f : String × Value) : List Char :=
  quote f.1.toList ++ ':' :: ' ' :: f.2.literal

@[simp] theorem literal_null : null.literal = "null".toList := by
  simp [literal, literalOnto]

@[simp] theorem literal_bool (b : Bool) : (bool b).literal = (boolText b).toList := by
  simp [literal, literalOnto]

@[simp] theorem literal_number (x : Double) : (number x).literal = Number.text x.float := by
  simp [literal, literalOnto]

@[simp] theorem literal_text (s : String) : (text s).literal = quote s.toList := by
  simp [literal, literalOnto]

/-- The items stand between brackets, with commas. -/
theorem literal_array (vs : List Value) :
    (array vs).literal = '[' :: (listed (vs.map literal) ++ [']']) := by
  have more : ∀ vs : List Value, (moreItemLiteralsOnto [] vs).reverse =
      (vs.map literal).flatMap (fun t => ',' :: ' ' :: t) := by
    intro vs
    induction vs with
    | nil => rfl
    | cons v vs ih =>
        rw [moreItemLiteralsOnto, moreItemLiteralsOnto_eq_append, literalOnto_eq_append]
        simp [ih, literal]
  rw [literal, literalOnto, itemLiteralsOnto_eq_append]
  cases vs with
  | nil => rfl
  | cons v vs =>
      rw [itemLiteralsOnto, moreItemLiteralsOnto_eq_append]
      simp [listed, more, literal]

/-- The fields stand between braces, with commas. -/
theorem literal_object (fs : List (String × Value)) :
    (object fs).literal = '\x7b' :: (listed (fs.map fieldLiteral) ++ ['\x7d']) := by
  have more : ∀ fs : List (String × Value), (moreFieldLiteralsOnto [] fs).reverse =
      (fs.map fieldLiteral).flatMap (fun t => ',' :: ' ' :: t) := by
    intro fs
    induction fs with
    | nil => rfl
    | cons f fs ih =>
        obtain ⟨k, v⟩ := f
        rw [moreFieldLiteralsOnto, moreFieldLiteralsOnto_eq_append, literalOnto_eq_append]
        simp [ih, literal, fieldLiteral]
  rw [literal, literalOnto, fieldLiteralsOnto_eq_append]
  cases fs with
  | nil => rfl
  | cons f fs =>
      obtain ⟨k, v⟩ := f
      rw [fieldLiteralsOnto, moreFieldLiteralsOnto_eq_append, literalOnto_eq_append]
      simp [listed, more, literal, fieldLiteral]

end Value

/-- A value with the blocks of its literal and the tree that they derive,
which is plain data with the value.  The blocks are spelled before anything
that ends a word, and a literal that begins with no minus sign is a primary. -/
structure Writing where
  value : Value
  blocks : List Block
  tree : Expr
  text_eq : Block.textOf blocks = value.literal
  spelled : ∀ next, Spelled next → EndsWord (Block.textOf next) → Spelled (blocks ++ next)
  signed : Derives .signed (Block.tokens blocks) tree
  primary : (∀ cs, value.literal ≠ '-' :: cs) → Derives .primary (Block.tokens blocks) tree
  plain : tree.asLiteral? = some value

namespace Writing

/-- The writing of a literal that is one block. -/
def ofBlock (v : Value) (b : Block) (e : Expr) (text_eq : b.text = v.literal) (valid : b.Valid)
    (fits : ∀ rest, EndsWord rest → b.Fits rest) (derived : Derives .primary (Block.tokens [b]) e)
    (plain : e.asLiteral? = some v) : Writing where
  value := v
  blocks := [b]
  tree := e
  text_eq := by simpa using text_eq
  spelled := fun next hnext ends => ⟨valid, fits _ ends, hnext⟩
  signed := .base derived
  primary := fun _ => derived
  plain := plain

end Writing

/-- A reserved word is the literal of its value. -/
theorem exists_writing_word {v : Value} {w : List Char} (hw : isIdentifier w = true)
    (hv : reservedValue? (String.ofList w) = some v) (text_eq : w = v.literal) :
    ∃ x : Writing, x.value = v := by
  have tree : nameExpr (String.ofList w) = .literal v := by rw [nameExpr, hv]
  exact ⟨.ofBlock v (.name w) (.literal v) text_eq hw (fun _ ends => ends)
    (tree ▸ .name (String.ofList w)) rfl, rfl⟩

/-- The literal of a number with a minus sign. -/
theorem exists_writing_minus {x y : Double} {b : Block} (hxy : x = -y)
    (text_eq : (Value.number x).literal = '-' :: b.text) (valid : b.Valid)
    (fits : ∀ rest, EndsWord rest → b.Fits rest)
    (derived : Derives .primary (Block.tokens [b]) (.literal (.number y))) :
    ∃ w : Writing, w.value = .number x := by
  refine ⟨{
    value := .number x
    blocks := [.sign ['-'] .minus, b]
    tree := .unary .neg (.literal (.number y))
    text_eq := by simp [text_eq, Block.text]
    spelled := ?_
    signed := .sign rfl (.base derived)
    primary := fun h => absurd text_eq (h _)
    plain := by rw [hxy]; rfl }, rfl⟩
  intro next hnext ends
  refine ⟨by simp [Block.Valid, signs], ?_, valid, fits _ ends, hnext⟩
  intro c more _
  simp [continuations]

/-- The minus sign of a number that is no NaN is that of its bits. -/
theorem Double.eq_neg_of {x : Double} {y : Float} (h : x.isNaN = false) (hxy : -y = x.float) :
    x = -.of y := by
  have signed : (-Double.of y).float = x.float := by rw [Double.float_neg, Double.float_of, hxy]
  have whole : (-Double.of y).isNaN = false := by rw [Double.isNaN, signed, ← Double.isNaN, h]
  rw [← Double.of_float h, ← signed, Double.of_float whole]

/-- A number that is read back is written. -/
theorem exists_writing_number {x : Double} (h : Number.ReadsBack x.float) (regular : x.Regular) :
    ∃ w : Writing, w.value = .number x := by
  have named : ∀ {y : Float}, x.float = y → x = .of y := fun h => regular.symm.trans (congrArg _ h)
  by_cases nan : x.float = Number.nan
  · obtain rfl := named nan
    refine exists_writing_word (w := "NaN".toList) (by decide) (by rfl) ?_
    rw [Value.literal_number]
    decide +kernel
  · have number : x.isNaN = false := by
      rw [Double.isNaN, Float.isNaN_eq_decide_eq_nan]
      exact decide_eq_false nan
    rcases h with is_nan | infinite | infinite | h
    · exact absurd is_nan nan
    · obtain rfl := named infinite
      refine exists_writing_word (w := "Infinity".toList) (by decide) (by rfl) ?_
      rw [Value.literal_number]
      decide +kernel
    · refine exists_writing_minus (y := .of Number.infinity) (b := .name "Infinity".toList)
        (Double.eq_neg_of number infinite.symm) ?_ (by rfl) (fun _ ends => ends) (.name "Infinity")
      rw [Value.literal_number, infinite]
      decide +kernel
    · unfold Number.ofDecimal? at h
      rcases hsign : Number.takeSign (Number.text x.float) with ⟨negative, rest⟩
      rw [hsign] at h
      obtain ⟨y, hy, hxy⟩ := Option.map_eq_some_iff.mp h
      have numeral := Number.isNumeral_of_ofUnsigned? hy
      unfold Number.takeSign at hsign
      split at hsign
      · rename_i cs text_eq
        cases hsign
        exact exists_writing_minus (b := .number rest y) (Double.eq_neg_of number hxy)
          (by rw [Value.literal_number, text_eq]; rfl) ⟨numeral, hy⟩ (fun _ ends => ends)
          (.number y)
      · rename_i cs text_eq
        exact absurd text_eq (Number.text_ne_plus x.float cs)
      · cases hsign
        have same : y = x.float := by simpa using hxy
        refine ⟨.ofBlock (.number x) (.number (Number.text x.float) y) (.literal (.number (.of y)))
          (Value.literal_number x).symm ⟨numeral, hy⟩ (fun _ ends => ends) (.number y) ?_, rfl⟩
        rw [← named same.symm]
        rfl

/-- The blocks of a comma and a blank. -/
def Block.comma : List Block := [.sign [','] .comma, .blank ' ']

/-- Rows of blocks with a comma and a blank between them. -/
def Block.rows : List (List Block) → List Block
  | [] => []
  | bs :: more => bs ++ more.flatMap (Block.comma ++ ·)

@[simp] theorem Block.textOf_comma : Block.textOf Block.comma = [',', ' '] := rfl

@[simp] theorem Block.tokens_comma : Block.tokens Block.comma = [.symbol .comma] := rfl

/-- The text of rows is theirs with commas between. -/
theorem Block.textOf_rows (bss : List (List Block)) :
    Block.textOf (Block.rows bss) = Value.listed (bss.map Block.textOf) := by
  have more : ∀ bss : List (List Block), Block.textOf (bss.flatMap (Block.comma ++ ·)) =
      (bss.map Block.textOf).flatMap (fun t => ',' :: ' ' :: t) := by
    intro bss
    induction bss with
    | nil => rfl
    | cons bs bss ih => simp [ih]
  cases bss with
  | nil => rfl
  | cons bs bss => simp [Block.rows, more, Value.listed]

/-- So are the tokens. -/
theorem Block.tokens_rows (bss : List (List Block)) :
    Block.tokens (Block.rows bss) = joined (bss.map Block.tokens) := by
  have more : ∀ bss : List (List Block), Block.tokens (bss.flatMap (Block.comma ++ ·)) =
      (bss.map Block.tokens).flatMap (.symbol .comma :: ·) := by
    intro bss
    induction bss with
    | nil => rfl
    | cons bs bss ih => simp [ih]
  cases bss with
  | nil => rfl
  | cons bs bss => simp [Block.rows, more, joined]

/-- A sign is spelled before anything where no longer sign begins like it. -/
theorem Spelled.sign {cs : List Char} {s : Symbol} {next : List Block} (h : Spelled next)
    (hcs : (cs, s) ∈ signs) (alone : continuations cs = []) : Spelled (.sign cs s :: next) := by
  refine ⟨hcs, ?_, h⟩
  intro c more _
  simp [alone]

/-- Rows that are spelled well, each whatever follows, are spelled well together. -/
theorem spelled_rows {bss : List (List Block)} (h : ∀ bs ∈ bss, ∀ next, Spelled next →
      EndsWord (Block.textOf next) → Spelled (bs ++ next)) {next : List Block}
    (hnext : Spelled next) (ends : EndsWord (Block.textOf next)) :
    Spelled (Block.rows bss ++ next) := by
  have more : ∀ bss : List (List Block), (∀ bs ∈ bss, ∀ next, Spelled next →
      EndsWord (Block.textOf next) → Spelled (bs ++ next)) →
      Spelled (bss.flatMap (Block.comma ++ ·) ++ next) ∧
        EndsWord (Block.textOf (bss.flatMap (Block.comma ++ ·) ++ next)) := by
    intro bss
    induction bss with
    | nil => exact fun _ => ⟨hnext, ends⟩
    | cons bs bss ih =>
        intro h
        obtain ⟨htail, hends⟩ := ih fun bs hbs => h bs (List.mem_cons_of_mem _ hbs)
        have hfirst := h bs List.mem_cons_self _ htail hends
        rw [List.flatMap_cons, List.append_assoc, List.append_assoc]
        refine ⟨Spelled.sign ⟨by rfl, trivial, hfirst⟩ (by decide) rfl, ?_⟩
        exact endsWord_of_mem_signs (show ([','], Symbol.comma) ∈ signs by decide) _
  cases bss with
  | nil => exact hnext
  | cons bs bss =>
      obtain ⟨htail, hends⟩ := more bss fun bs hbs => h bs (List.mem_cons_of_mem _ hbs)
      rw [Block.rows, List.append_assoc]
      exact h bs List.mem_cons_self _ htail hends

/-- A list of what `f` takes on is taken on by a list. -/
theorem exists_map_eq {α β : Type} {f : α → β} {bs : List β} (h : ∀ b ∈ bs, ∃ a, f a = b) :
    ∃ as : List α, as.map f = bs := by
  induction bs with
  | nil => exact ⟨[], rfl⟩
  | cons b bs ih =>
      obtain ⟨a, ha⟩ := h b List.mem_cons_self
      obtain ⟨as, has⟩ := ih fun c hc => h c (List.mem_cons_of_mem _ hc)
      exact ⟨a :: as, by rw [List.map_cons, ha, has]⟩

/-- Items that are written are literals of their values. -/
theorem Expr.literalItems?_writings (ws : List Writing) (out : List Value) :
    literalItems? out (ws.map (·.tree)) = some (out.reverse ++ ws.map (·.value)) := by
  induction ws generalizing out with
  | nil => simp [literalItems?]
  | cons w ws ih =>
      rw [List.map_cons, literalItems?, w.plain]
      simp [ih]

/-- So are fields that are written. -/
theorem Expr.literalFields?_writings (ws : List (String × Writing)) (out : Entries Value) :
    literalFields? out (ws.map fun f => (f.1, f.2.tree)) =
      some ((ws.map fun f => (f.1, f.2.value)).foldl (fun es p => es.insert p.1 p.2) out) := by
  induction ws generalizing out with
  | nil => rfl
  | cons w ws ih =>
      obtain ⟨k, w⟩ := w
      rw [List.map_cons, literalFields?, w.plain]
      exact ih _

/-- The blocks of bracketed rows are spelled. -/
theorem spelled_brackets {opening closing : List Char} {s t : Symbol}
    (hopening : (opening, s) ∈ signs) (hclosing : (closing, t) ∈ signs)
    (alone : continuations opening = [] ∧ continuations closing = []) {bss : List (List Block)}
    (h : ∀ bs ∈ bss, ∀ next, Spelled next →
      EndsWord (Block.textOf next) → Spelled (bs ++ next)) {next : List Block}
    (hnext : Spelled next) :
    Spelled (.sign opening s :: (Block.rows bss ++ [.sign closing t]) ++ next) := by
  have rest : Spelled (.sign closing t :: next) := hnext.sign hclosing alone.2
  rw [List.cons_append, List.append_assoc]
  exact (spelled_rows h rest (endsWord_of_mem_signs hclosing _)).sign hopening alone.1

/-- The tokens of bracketed rows. -/
theorem Block.tokens_brackets (opening closing : List Char) (s t : Symbol)
    (bss : List (List Block)) :
    Block.tokens (.sign opening s :: (Block.rows bss ++ [.sign closing t])) =
      .symbol s :: (joined (bss.map Block.tokens) ++ [.symbol t]) := by
  rw [Block.tokens_cons_of_some rfl, Block.tokens_append, Block.tokens_rows]
  rfl

namespace Writing

/-- A writing as an item among others. -/
def item (w : Writing) : ItemPhrase := ⟨Block.tokens w.blocks, w.tree⟩

variable (ws : List Writing)

/-- Each writing is spelled well before whatever may follow it. -/
theorem spelled_of_mem : ∀ bs ∈ ws.map (·.blocks), ∀ next, Spelled next →
    EndsWord (Block.textOf next) → Spelled (bs ++ next) := by
  intro bs hbs
  obtain ⟨w, -, rfl⟩ := List.mem_map.mp hbs
  exact w.spelled

/-- The tokens of each are the phrase of an item. -/
theorem derives_item : ∀ i ∈ ws.map item, Derives .conditional i.tokens i.tree := by
  intro i hi
  obtain ⟨w, -, rfl⟩ := List.mem_map.mp hi
  exact w.signed.conditional

/-- The tokens of the items are those of the blocks. -/
theorem tokens_items :
    (ws.map item).map ItemPhrase.tokens = (ws.map (·.blocks)).map Block.tokens := by
  rw [List.map_map, List.map_map]
  rfl

/-- Their trees are those that are written. -/
theorem trees_items : (ws.map item).map ItemPhrase.tree = ws.map (·.tree) := by
  rw [List.map_map]
  rfl

/-- The texts of the blocks are the literals of the values. -/
theorem texts_blocks :
    (ws.map (·.blocks)).map Block.textOf = ws.map fun w => w.value.literal := by
  rw [List.map_map]
  exact List.map_congr_left fun w _ => w.text_eq

end Writing

/-- An array of writings is written. -/
theorem exists_writing_array (ws : List Writing) :
    ∃ w : Writing, w.value = .array (ws.map (·.value)) := by
  have derived : Derives .primary
      (Block.tokens (.sign ['['] .openBracket ::
        (Block.rows (ws.map (·.blocks)) ++ [.sign [']'] .closeBracket])))
      (.array (ws.map (·.tree))) := by
    rw [Block.tokens_brackets, ← Writing.tokens_items, ← Writing.trees_items]
    exact .array (Writing.derives_item ws)
  refine ⟨{
    value := .array (ws.map (·.value))
    blocks := .sign ['['] .openBracket ::
      (Block.rows (ws.map (·.blocks)) ++ [.sign [']'] .closeBracket])
    tree := .array (ws.map (·.tree))
    text_eq := ?_
    spelled := fun next hnext _ =>
      spelled_brackets (by decide) (by decide) ⟨rfl, rfl⟩ (Writing.spelled_of_mem ws) hnext
    signed := .base derived
    primary := fun _ => derived
    plain := by simp [Expr.asLiteral?, Expr.literalItems?_writings] }, rfl⟩
  have texts : (ws.map (·.blocks)).map Block.textOf = (ws.map (·.value)).map Value.literal := by
    rw [Writing.texts_blocks, List.map_map]
    rfl
  rw [Value.literal_array, ← texts, ← Block.textOf_rows]
  simp [Block.text]

/-- The blocks of a field. -/
def Block.ofField (f : String × Writing) : List Block :=
  .quoted '"' (f.1.toList.flatMap escapeChar) f.1.toList :: .sign [':'] .colon :: .blank ' ' ::
    f.2.blocks

/-- Fields that are written are spelled well, each before whatever may follow it. -/
theorem spelled_fields (ws : List (String × Writing)) : ∀ bs ∈ ws.map Block.ofField,
    ∀ next, Spelled next → EndsWord (Block.textOf next) → Spelled (bs ++ next) := by
  intro bs hbs next hnext ends
  obtain ⟨f, -, rfl⟩ := List.mem_map.mp hbs
  have value := f.2.spelled next hnext ends
  have colon : Spelled (.sign [':'] .colon :: .blank ' ' :: (f.2.blocks ++ next)) :=
    Spelled.sign ⟨by rfl, trivial, value⟩ (by decide) rfl
  exact ⟨⟨.inl rfl, quotes_escapeChar _⟩, trivial, colon⟩

/-- The phrase of a field that is written. -/
def Writing.fieldPhrase (f : String × Writing) : FieldPhrase :=
  ⟨.text f.1, f.1, Block.tokens f.2.blocks, f.2.tree⟩

/-- The tokens of fields that are written, between braces, are a phrase of their object. -/
theorem derives_fields (ws : List (String × Writing)) : Derives .primary
    (Block.tokens (.sign ['\x7b'] .openBrace ::
      (Block.rows (ws.map Block.ofField) ++ [.sign ['\x7d'] .closeBrace])))
    (.object (ws.map fun f => (f.1, f.2.tree))) := by
  have keys : ∀ f ∈ ws.map Writing.fieldPhrase, keyOf? f.key = some f.name := by
    intro f hf
    obtain ⟨w, -, rfl⟩ := List.mem_map.mp hf
    rfl
  have values : ∀ f ∈ ws.map Writing.fieldPhrase, Derives .conditional f.tokens f.tree := by
    intro f hf
    obtain ⟨w, -, rfl⟩ := List.mem_map.mp hf
    exact w.2.signed.conditional
  have object := Derives.object keys values
  have same : (ws.map Block.ofField).map Block.tokens =
      (ws.map Writing.fieldPhrase).map FieldPhrase.whole := by
    rw [List.map_map, List.map_map]
    refine List.map_congr_left fun f _ => ?_
    show Block.tokens (Block.ofField f) = (Writing.fieldPhrase f).whole
    rw [Block.ofField, Block.tokens_cons_of_some rfl, Block.tokens_cons_of_some rfl,
      Block.tokens_blank]
    simp [Writing.fieldPhrase, FieldPhrase.whole]
  rw [Block.tokens_brackets, same]
  rw [List.map_map (g := FieldPhrase.field)] at object
  exact object

/-- Their texts are the literals of the fields. -/
theorem texts_fields (ws : List (String × Writing)) : (ws.map Block.ofField).map Block.textOf =
    (ws.map fun f => (f.1, f.2.value)).map Value.fieldLiteral := by
  rw [List.map_map, List.map_map]
  refine List.map_congr_left fun f _ => ?_
  simp [Block.ofField, Block.text, Value.fieldLiteral, quote, f.2.text_eq]

/-- An object of writings is written, where its keys ascend. -/
theorem exists_writing_object (ws : List (String × Writing))
    (asc : Entries.Ascending (ws.map fun f => (f.1, f.2.value))) :
    ∃ w : Writing, w.value = .object (ws.map fun f => (f.1, f.2.value)) := by
  refine ⟨{
    value := .object (ws.map fun f => (f.1, f.2.value))
    blocks := .sign ['\x7b'] .openBrace ::
      (Block.rows (ws.map Block.ofField) ++ [.sign ['\x7d'] .closeBrace])
    tree := .object (ws.map fun f => (f.1, f.2.tree))
    text_eq := ?_
    spelled := fun next hnext _ =>
      spelled_brackets (by decide) (by decide) ⟨rfl, rfl⟩ (spelled_fields ws) hnext
    signed := .base (derives_fields ws)
    primary := fun _ => derives_fields ws
    plain := ?_ }, rfl⟩
  · rw [Value.literal_object, ← texts_fields, ← Block.textOf_rows]
    simp [Block.text]
  · rw [Expr.asLiteral?, Expr.literalFields?_writings, Entries.foldl_insert_eq_append [] _ asc]
    rfl

/-- Legible values are written. -/
theorem Value.Legible.exists_writing {v : Value} (h : v.Legible) :
    ∃ w : Writing, w.value = v := by
  induction h with
  | null => exact exists_writing_word (w := "null".toList) (by decide) rfl rfl
  | bool b =>
      cases b with
      | true => exact exists_writing_word (w := "true".toList) (by decide) rfl rfl
      | false => exact exists_writing_word (w := "false".toList) (by decide) rfl rfl
  | number h regular => exact exists_writing_number h regular
  | text s =>
      refine ⟨.ofBlock (.text s) (.quoted '"' (s.toList.flatMap escapeChar) s.toList)
        (.literal (.text s)) ?_ ⟨.inl rfl, quotes_escapeChar _⟩ (fun _ _ => trivial) ?_ rfl, rfl⟩
      · simp [Block.text, Value.literal, Value.literalOnto, quote]
      · simpa [Block.tokens, Block.token?] using Derives.text s
  | array _ ih =>
      obtain ⟨ws, rfl⟩ := exists_map_eq ih
      exact exists_writing_array ws
  | @object fs asc _ ih =>
      have fields : ∀ f ∈ fs, ∃ w : String × Writing, (w.1, w.2.value) = f := by
        intro f hf
        obtain ⟨w, hw⟩ := ih f hf
        exact ⟨(f.1, w), by rw [hw]⟩
      obtain ⟨ws, rfl⟩ := exists_map_eq fields
      exact exists_writing_object ws asc

/-- A value with the blocks of what is spliced into a formula for it: always a
primary. -/
structure Patch where
  value : Value
  blocks : List Block
  tree : Expr
  text_eq : Block.textOf blocks = value.splice
  spelled : ∀ next, Spelled next → EndsWord (Block.textOf next) → Spelled (blocks ++ next)
  derived : Derives .primary (Block.tokens blocks) tree
  plain : tree.asLiteral? = some value

/-- Legible values can be spliced: a literal with a minus sign goes in
parentheses. -/
theorem Value.Legible.exists_patch {v : Value} (h : v.Legible) : ∃ p : Patch, p.value = v := by
  obtain ⟨w, rfl⟩ := h.exists_writing
  by_cases minus : ∃ cs, w.value.literal = '-' :: cs
  · obtain ⟨cs, eq⟩ := minus
    refine ⟨{
      value := w.value
      blocks := .sign ['('] .openParen :: (w.blocks ++ [.sign [')'] .closeParen])
      tree := w.tree
      text_eq := ?_
      spelled := ?_
      derived := ?_
      plain := w.plain }, rfl⟩
    · rw [Value.splice, eq]
      simp [Block.text, w.text_eq, eq]
    · intro next hnext _
      have rest : Spelled (.sign [')'] .closeParen :: next) := hnext.sign (by decide) rfl
      rw [List.cons_append, List.append_assoc]
      exact (w.spelled _ rest (endsWord_of_mem_signs
        (show ([')'], Symbol.closeParen) ∈ signs by decide) _)).sign (by decide) rfl
    · rw [Block.tokens_cons_of_some rfl, Block.tokens_append]
      exact .paren w.signed.conditional
  · have alone : ∀ cs, w.value.literal ≠ '-' :: cs := fun cs eq => minus ⟨cs, eq⟩
    refine ⟨⟨w.value, w.blocks, w.tree, ?_, w.spelled, w.primary alone, w.plain⟩, rfl⟩
    rw [w.text_eq, Value.splice]
    split
    · rename_i cs eq
      exact absurd eq (alone cs)
    · rfl

/-- A text whose tokens begin like a phrase does not begin with a character
that would make a longer sign of another. -/
theorem Spelled.head_ne {bs : List Block} (h : Spelled bs)
    (head : ∀ s rest, Block.tokens bs = .symbol s :: rest → s.BeginsPhrase)
    {c : Char} {more : List Char} (eq : Block.textOf bs = c :: more) : c ≠ '=' ∧ c ≠ '>' := by
  have word : Character.isWord c = true → c ≠ '=' ∧ c ≠ '>' := by
    intro hc
    refine ⟨?_, ?_⟩ <;>
      · intro eq
        subst eq
        exact absurd hc (by decide)
  cases bs with
  | nil => cases eq
  | cons b bs =>
      obtain ⟨hvalid, -, -⟩ := h
      rw [Block.textOf_cons] at eq
      cases b with
      | blank d =>
          cases eq
          have hblank : Character.isBlank c = true := hvalid
          refine ⟨?_, ?_⟩ <;>
            · intro eq
              subst eq
              exact absurd hblank (by decide)
      | name w =>
          cases w with
          | nil => cases hvalid
          | cons d w =>
              cases eq
              exact word (isWord_of_isIdentifier hvalid c List.mem_cons_self)
      | number ds x =>
          cases hvalid.1 with
          | digit hd _ _ =>
              cases eq
              exact word (isWord_of_isDigit hd)
          | point _ _ _ =>
              cases eq
              decide
      | quoted q body s =>
          cases eq
          rcases hvalid.1 with rfl | rfl <;> decide
      | sign ds s =>
          have table : ∀ p ∈ signs, p.2.BeginsPhrase →
              p.1 ≠ [] ∧ p.1.head?.all (fun d => d ≠ '=' ∧ d ≠ '>') = true := by decide
          obtain ⟨hne, hfirst⟩ := table _ hvalid (head s _ (Block.tokens_sign ds s bs))
          obtain ⟨d, ds, rfl⟩ := List.exists_cons_of_ne_nil hne
          cases eq
          exact of_decide_eq_true hfirst

/-- No sign goes on with the first character of a phrase. -/
theorem Spelled.not_continuation {bs : List Block} (h : Spelled bs) {p : Phrase} {e : Expr}
    (derived : Derives p (Block.tokens bs) e) {c : Char} {more : List Char}
    (eq : Block.textOf bs = c :: more) (cs : List Char) : c ∉ continuations cs := by
  obtain ⟨notEquals, notGreater⟩ := h.head_ne (fun _ _ => derived.head_symbol) eq
  unfold continuations
  split <;> simp [notEquals, notGreater]

/-- A block fits before a patch where it fits before a name. -/
theorem Block.Fits.patch {b : Block} {w rest : List Char} (hw : isIdentifier w = true)
    (h : b.Fits (w ++ rest)) (p : Patch) (rest' : List Char) :
    b.Fits (Block.textOf p.blocks ++ rest') := by
  have notEnds : ¬ EndsWord (w ++ rest) := not_endsWord_of_isIdentifier hw rest
  cases b with
  | blank d => trivial
  | name v => exact absurd h notEnds
  | number cs x => exact absurd h notEnds
  | quoted q body s => trivial
  | sign cs s =>
      have spelled : Spelled p.blocks := by
        have alone := p.spelled [] trivial endsWord_nil
        rwa [List.append_nil] at alone
      intro d more eq
      cases htext : Block.textOf p.blocks with
      | nil => exact absurd (by rw [spelled.eq_nil htext]; rfl) p.derived.ne_nil
      | cons e others =>
          rw [htext] at eq
          cases eq
          exact spelled.not_continuation p.derived htext cs

namespace Expr

mutual

/-- What is plain data evaluates to its value, wherever it is evaluated. -/
theorem evaluate_of_asLiteral? (call : Caller) (scope : Scope) : ∀ (e : Expr) (v : Value),
    e.asLiteral? = some v → e.evaluate call scope = pure v
  | .literal w, v, h => by
    cases h
    rfl
  | .unary .neg (.literal (.number x)), v, h => by
    cases h
    rfl
  | .array items, v, h => by
    obtain ⟨vs, hvs, rfl⟩ := Option.map_eq_some_iff.mp h
    rw [evaluate, evaluateItems_of_literalItems? call scope items [] vs hvs]
    rfl
  | .object fields, v, h => by
    obtain ⟨vs, hvs, rfl⟩ := Option.map_eq_some_iff.mp h
    rw [evaluate, evaluateFields_of_literalFields? call scope fields [] vs hvs]
    rfl

/-- Literal items evaluate to what they write, with no call. -/
theorem evaluateItems_of_literalItems? (call : Caller) (scope : Scope) :
    ∀ (items : List Expr) (out vs : List Value), literalItems? out items = some vs →
      evaluateItems call scope out items = pure vs
  | [], out, vs, h => by
    cases h
    rfl
  | e :: es, out, vs, h => by
    rw [literalItems?] at h
    split at h
    · rename_i v hv
      rw [evaluateItems, evaluate_of_asLiteral? call scope e v hv, pure_bind]
      exact evaluateItems_of_literalItems? call scope es (v :: out) vs h
    · cases h

/-- So do literal fields. -/
theorem evaluateFields_of_literalFields? (call : Caller) (scope : Scope) :
    ∀ (fields : List (String × Expr)) (out vs : Entries Value),
      literalFields? out fields = some vs → evaluateFields call scope out fields = pure vs
  | [], out, vs, h => by
    cases h
    rfl
  | (k, e) :: fs, out, vs, h => by
    rw [literalFields?] at h
    split at h
    · rename_i v hv
      rw [evaluateFields, evaluate_of_asLiteral? call scope e v hv, pure_bind]
      exact evaluateFields_of_literalFields? call scope fs (out.insert k v) vs h
    · cases h

end

end Expr

end FormulaSheet
