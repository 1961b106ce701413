import FormulaSheet.Character.Variants
import FormulaSheet.Proofs.Binding
import FormulaSheet.Proofs.Layers

/-!
# Names that can be used

The names of a definition are made of letters, digits and underscores, whatever the case
of the letters.  Two letters beyond ASCII differ from an ASCII letter in case alone, the
long s and the Kelvin sign, so a name may have them.  Formulas are cut into names by the
ASCII letters only: to a scanner a word with another letter is no identifier, and a
parser stops at the letter.

So a function is accepted that cannot be called, or a parameter that cannot be used, if
its name has one of the two; every other name can be.

* `opensName_eq_any_variants` — where the two letters come from;
* `Expr.ascii_of_parsed` — what is parsed is ASCII but for blanks and quoted text;
* `Library.define_usable` — what names a definition that is accepted can be used by.
-/

namespace FormulaSheet

/-- Whether a name is made of ASCII characters. -/
def IsAscii (s : String) : Prop := ∀ c ∈ s.toList, c.toNat < 128

instance (s : String) : Decidable (IsAscii s) :=
  decidable_of_iff (s.toList.all (fun c => c.toNat < 128) = true) (by simp [IsAscii])

section Variants

open Character

/-- What names are made of but for digits, where case is not ignored. -/
def isCapital (c : Char) : Bool := c.isUpper || c == '_'

/-- Neither a capital of ASCII nor an underscore has a code beyond 95. -/
theorem isCapital_eq_false {c : Char} (far : 95 < c.toNat) : isCapital c = false := by
  refine Bool.eq_false_iff.mpr fun capital => ?_
  simp only [isCapital, Char.isUpper, Bool.or_eq_true, decide_eq_true_eq, beq_iff_eq,
    ge_iff_le, UInt32.le_iff_toNat_le] at capital
  rcases capital with ⟨-, high⟩ | rfl
  · have limit : c.toNat ≤ 90 := high
    omega
  · exact absurd far (by decide)

/-- A shift keeps codes beyond 95, or takes a single one of a family. -/
def Character.Shift.staysFar (s : Shift) : Bool :=
  decide (95 < (s.first : Int) + s.delta) ||
    s.first == s.last && (caseFamilies.find? (·.contains s.first)).isSome

/-- A mapping by such shifts takes what is of no family to no capital of ASCII, nor to
an underscore. -/
theorem isCapital_of_mapCase {expansions : List (Nat × List Nat)} {shifts : List Shift}
    (several : expansions.all (fun e => 2 ≤ e.2.length) = true)
    (stay : shifts.all Shift.staysFar = true) {c d : Char} (far : 95 < c.toNat)
    (alone : caseFamilies.find? (·.contains c.toNat) = none)
    (h : single? (mapCase expansions shifts c) = some d) : isCapital d = false := by
  unfold mapCase at h
  split at h
  · -- an expansion is more than one character
    rename_i codes found
    obtain ⟨front, back, split, -⟩ := List.lookup_eq_some_iff.mp found
    have long := List.all_eq_true.mp several (c.toNat, codes) (by simp [split])
    match codes, long with
    | _ :: _ :: _, _ => cases h
  · split at h
    · rename_i n found
      obtain ⟨s, hs, applied⟩ := List.exists_of_findSome?_eq_some found
      unfold Shift.apply? at applied
      split_ifs at applied with within
      cases h
      cases applied
      have stays := List.all_eq_true.mp stay s hs
      rw [Shift.staysFar, Bool.or_eq_true, decide_eq_true_eq] at stays
      rcases stays with above | single
      · by_cases valid : (((c.toNat : Int) + s.delta).toNat).isValidChar
        · refine isCapital_eq_false ?_
          rw [Char.toNat_ofNat, if_pos valid]
          omega
        · rw [Char.ofNat, dif_neg valid]
          rfl
      · obtain ⟨one, family⟩ := Bool.and_eq_true_iff.mp single
        have code : s.first = c.toNat := by
          rw [beq_iff_eq] at one
          omega
        rw [code, alone] at family
        cases family
    · cases h
      exact isCapital_eq_false far

section Alone

variable {c : Char} (beyond : ¬ c.toNat < 128)
  (alone : caseFamilies.find? (·.contains c.toNat) = none)
include beyond alone

/-- A character beyond ASCII that is of no family opens no name. -/
theorem opensName_eq_false : opensName c = false := by
  refine Bool.eq_false_iff.mpr fun opens => ?_
  simp only [opensName, Bool.or_eq_true, beq_iff_eq] at opens
  rcases opens with ((alpha | rfl) | rfl) | rfl
  · rcases isAlpha_iff.mp alpha with range | range <;> omega
  · exact beyond (by decide)
  · revert alone
    decide +kernel
  · revert alone
    decide +kernel

/-- What differs from it in case alone is no capital of ASCII, nor an underscore. -/
theorem isCapital_of_mem_variants {d : Char} (hd : d ∈ variants c) : isCapital d = false := by
  have far : 95 < c.toNat := by omega
  rw [variants, alone] at hd
  rcases List.mem_cons.mp hd with rfl | hd
  · exact isCapital_eq_false far
  · rw [upper, lower, if_neg beyond, if_neg beyond] at hd
    rcases List.mem_append.mp hd with hd | hd
    · exact isCapital_of_mapCase (by decide +kernel) (by decide +kernel) far alone
        (Option.mem_toList.mp hd)
    · exact isCapital_of_mapCase (by decide +kernel) (by decide +kernel) far alone
        (Option.mem_toList.mp hd)

end Alone

/-- **Names begin with what differs in case alone from a capital of ASCII or an
underscore.** -/
theorem opensName_eq_any_variants (c : Char) : opensName c = (variants c).any isCapital := by
  by_cases ascii : c.toNat < 128
  · have table : (List.range 128).all (fun n =>
        opensName (Char.ofNat n) == (variants (Char.ofNat n)).any isCapital) = true := by
      decide +kernel
    have row := List.all_eq_true.mp table c.toNat (List.mem_range.mpr ascii)
    rwa [Char.ofNat_toNat, beq_iff_eq] at row
  · cases found : caseFamilies.find? (·.contains c.toNat) with
    | some family =>
        have table : caseFamilies.all (fun family => family.all fun n =>
            opensName (Char.ofNat n) == (family.map Char.ofNat).any isCapital) = true := by
          decide +kernel
        have row := List.all_eq_true.mp table family (List.mem_of_find?_eq_some found)
        have among := List.find?_some (p := fun family : List Nat => family.contains c.toNat) found
        have code := List.all_eq_true.mp row c.toNat (List.contains_iff_mem.mp among)
        rw [variants, found]
        rwa [Char.ofNat_toNat, beq_iff_eq] at code
    | none =>
        have other : (variants c).any isCapital = false :=
          List.any_eq_false.mpr fun d hd => by simp [isCapital_of_mem_variants ascii found hd]
        rw [other, opensName_eq_false ascii found]

end Variants

section Names

/-- What is in a name, beyond identifiers, is one of two letters. -/
theorem isNamePart_or_of_name {c : Char} (h : (opensName c || c.isDigit) = true) :
    isNamePart c = true ∨ c = 'ſ' ∨ c = '\u212a' := by
  simp only [opensName, Bool.or_eq_true, beq_iff_eq] at h
  rcases h with (((alpha | rfl) | rfl) | rfl) | digit
  · exact .inl (by simp [isNamePart, Char.isAlphanum, alpha])
  · exact .inl (by decide)
  · exact .inr (.inl rfl)
  · exact .inr (.inr rfl)
  · exact .inl (by simp [isNamePart, Char.isAlphanum, digit])

/-- What goes in names. -/
theorem mem_of_isFunctionName {s : String} (h : isFunctionName s = true) :
    s.toList ≠ [] ∧ ∀ c ∈ s.toList, (opensName c || c.isDigit) = true := by
  unfold isFunctionName at h
  cases chars : s.toList with
  | nil =>
      rw [chars] at h
      cases h
  | cons c cs =>
      rw [chars] at h
      obtain ⟨first, others⟩ := Bool.and_eq_true_iff.mp h
      refine ⟨List.cons_ne_nil c cs, List.forall_mem_cons.mpr ⟨?_, List.all_eq_true.mp others⟩⟩
      rw [first, Bool.true_or]

/-- The names in ASCII are the identifiers. -/
theorem isIdentifier_iff_isAscii {s : String} (h : isFunctionName s = true) :
    isIdentifier s.toList = true ↔ IsAscii s := by
  obtain ⟨-, parts⟩ := mem_of_isFunctionName h
  rw [isIdentifier_iff, String.ofList_toList]
  constructor
  · exact fun name c hc => ascii_of_isNamePart (name.2 c hc)
  · refine fun ascii => ⟨h, fun c hc => ?_⟩
    rcases isNamePart_or_of_name (parts c hc) with part | rfl | rfl
    · exact part
    · exact absurd (ascii _ hc) (by decide)
    · exact absurd (ascii _ hc) (by decide)

/-- The characters of a name are characters of words. -/
theorem isWord_of_isFunctionName {s : String} (h : isFunctionName s = true) :
    ∀ c ∈ s.toList, Character.isWord c = true := by
  intro c hc
  rcases isNamePart_or_of_name ((mem_of_isFunctionName h).2 c hc) with part | rfl | rfl
  · exact isWord_of_isNamePart part
  · decide +kernel
  · decide +kernel

end Names

/-- A block that is not quoted is in ASCII, or a blank. -/
theorem Block.ascii_of_valid {b : Block} (valid : b.Valid) {c : Char} (hc : c ∈ b.text) :
    (c.toNat < 128 ∨ Character.isBlank c = true) ∨ '"' ∈ b.text ∨ '\'' ∈ b.text := by
  cases b with
  | blank d =>
      obtain rfl := List.mem_singleton.mp hc
      exact .inl (.inr valid)
  | name w => exact .inl (.inl (ascii_of_isNamePart ((isIdentifier_iff.mp valid).2 c hc)))
  | number cs x =>
      refine .inl (.inl ?_)
      rcases numeral_chars valid.1 c hc with digit | other
      · have := isDigit_iff.mp digit
        omega
      · have table : ['.', 'e', 'E', '+', '-'].all (fun d => d.toNat < 128) = true := by decide
        exact of_decide_eq_true (List.all_eq_true.mp table c other)
  | quoted q body s =>
      right
      rcases valid.1 with rfl | rfl <;> simp [text]
  | sign cs s =>
      have table : ∀ p ∈ signs, p.1.all (fun d => d.toNat < 128) = true := by decide
      exact .inl (.inl (of_decide_eq_true (List.all_eq_true.mp (table _ valid) c hc)))

/-- A formula without quotes that can be parsed is in ASCII but for its blanks. -/
theorem Expr.ascii_of_parsed {cs : List Char} {e : Expr} (parsed : Expr.ofChars cs = .ok e)
    (unquoted : '"' ∉ cs ∧ '\'' ∉ cs) : ∀ c ∈ cs, c.toNat < 128 ∨ Character.isBlank c = true := by
  obtain ⟨bs, spelled, rfl, -⟩ := Expr.ofChars_eq_ok_iff.mp parsed
  intro c hc
  obtain ⟨b, hb, hc⟩ := List.mem_flatMap.mp hc
  rcases Block.ascii_of_valid (spelled.valid b hb) hc with ascii | quote | quote
  · exact ascii
  · exact absurd (List.mem_flatMap.mpr ⟨b, hb, quote⟩) unquoted.1
  · exact absurd (List.mem_flatMap.mpr ⟨b, hb, quote⟩) unquoted.2

section Usable

variable {s : String}

/-- If a text is parsed that has a name in it and no quotes, the name is in ASCII. -/
theorem isAscii_of_parsed (h : isFunctionName s = true) {rest : List Char} {e : Expr}
    (unquoted : '"' ∉ rest ∧ '\'' ∉ rest) (parsed : Expr.ofChars (s.toList ++ rest) = .ok e) :
    IsAscii s := by
  have word := isWord_of_isFunctionName h
  have quotes : '"' ∉ s.toList ∧ '\'' ∉ s.toList :=
    ⟨fun hc => absurd (word _ hc) (by decide), fun hc => absurd (word _ hc) (by decide)⟩
  intro c hc
  rcases Expr.ascii_of_parsed parsed (by simp [quotes, unquoted]) c (List.mem_append_left rest hc)
    with ascii | blank
  · exact ascii
  · rw [not_isBlank_of_isWord (word c hc)] at blank
    cases blank

/-- A name is spelled as itself. -/
theorem spelled_name (hs : isIdentifier s.toList = true) {bs : List Block} (next : Spelled bs)
    (ends : EndsWord (Block.textOf bs)) : Spelled (.name s.toList :: bs) :=
  ⟨hs, ends, next⟩

/-- Parentheses around nothing. -/
def emptyCall : List Block := [.sign ['('] .openParen, .sign [')'] .closeParen]

theorem spelled_emptyCall : Spelled emptyCall ∧ EndsWord (Block.textOf emptyCall) := by
  have opening : (['('], Symbol.openParen) ∈ signs := by decide
  have closing : ([')'], Symbol.closeParen) ∈ signs := by decide
  refine ⟨⟨opening, nofun, closing, nofun, trivial⟩, ?_⟩
  rintro c more eq
  obtain rfl : '(' = c := (List.cons.inj eq).1
  decide

theorem toList_append_call (s : String) : (s ++ "()").toList = callText s.toList [] := by
  rw [String.toList_append]
  rfl

/-- A call of a name in ASCII is parsed as such. -/
theorem parse_call (hs : isIdentifier s.toList = true) :
    Expr.parse (s ++ "()") = .ok (.call s []) := by
  have parsed := ofChars_callText hs []
  rwa [List.map_nil, List.map_nil, String.ofList_toList, Value.listed, ← toList_append_call]
    at parsed

/-- Its call is the innermost. -/
theorem innermost_call_empty (hs : isIdentifier s.toList = true)
    (notReserved : isReserved s = false) :
    (Outline.ofText (s ++ "()").toList).innermost = .ok (some ⟨[], s.toList, [], [], []⟩) := by
  obtain ⟨next, ends⟩ := spelled_emptyCall
  have spelled : Spelled (.name s.toList :: .sign ['('] .openParen ::
      ([] ++ [.sign [')'] .closeParen])) := spelled_name hs next ends
  have data : Expr.Data Host.still.nan (([] : List ItemPhrase).map ItemPhrase.tree) [] := rfl
  rw [toList_append_call]
  exact Outline.innermost_call spelled (by rwa [String.ofList_toList]) rfl (List.forall_mem_nil _)
    data

/-- A name in ASCII is parsed as such. -/
theorem parse_name (hs : isIdentifier s.toList = true) (notReserved : isReserved s = false) :
    Expr.parse s = .ok (.name s) := by
  have derived : Derives .primary [.name s] (.name s) := by
    have named := Derives.name s
    have words : Layer.words.map (·.1) = reservedWords := rfl
    have free : reservedValue? s = none := by
      rw [reservedValue?_eq_none_iff, words]
      exact fun among => Bool.eq_false_iff.mp notReserved (List.contains_iff_mem.mpr among)
    rwa [nameExpr, free] at named
  refine Expr.ofChars_eq_ok_iff.mpr ⟨[.name s.toList], spelled_name hs trivial endsWord_nil, ?_, ?_⟩
  · simp [Block.textOf, Block.text]
  · rw [Block.tokens_cons_of_some rfl, String.ofList_toList]
    exact Parser.parseTokens_eq_ok_iff.mpr ⟨_, .inl rfl, .conditional (.base derived)⟩

/-- A word that is no identifier is not called. -/
theorem innermost_of_not_isIdentifier (h : isFunctionName s = true)
    (hs : isIdentifier s.toList = false) :
    (Outline.ofText (s ++ "()").toList).innermost = .ok none := by
  have closing : Item.ofText [')'] = [.mark ')'] := by decide
  have items := ofText_callText (isWord_of_isFunctionName h) (mem_of_isFunctionName h).1 []
  rw [List.nil_append, closing] at items
  have word : ∀ next, Piece.ofWord false s.toList next = .plain (.word s.toList) := by
    intro next
    rw [Piece.ofWord, hs, if_pos (by simp)]
  have pieces : Outline.ofText (callText s.toList []) =
      [.plain (.word s.toList), .plain (.mark '('), .plain (.mark ')')] := by
    rw [Outline.ofText, items, Piece.ofItems, Piece.readFrom, word]
    rfl
  rw [toList_append_call, pieces]
  rfl

/-- A call that is parsed is of a name in ASCII. -/
theorem isAscii_of_parse_call (h : isFunctionName s = true) {e : Expr}
    (parsed : Expr.parse (s ++ "()") = .ok e) : IsAscii s := by
  rw [Expr.parse, toList_append_call] at parsed
  exact isAscii_of_parsed h (by decide) parsed

/-- A name that is parsed is in ASCII. -/
theorem isAscii_of_parse (h : isFunctionName s = true) {e : Expr}
    (parsed : Expr.parse s = .ok e) : IsAscii s := by
  rw [Expr.parse, ← List.append_nil s.toList] at parsed
  exact isAscii_of_parsed h (by decide) parsed

/-- A call is parsed as one of its name exactly if the name is in ASCII. -/
theorem parse_call_iff (h : isFunctionName s = true) :
    Expr.parse (s ++ "()") = .ok (.call s []) ↔ IsAscii s :=
  ⟨isAscii_of_parse_call h, fun ascii => parse_call ((isIdentifier_iff_isAscii h).mpr ascii)⟩

/-- A scanner finds a call exactly if its name is in ASCII. -/
theorem innermost_call_iff (h : isFunctionName s = true) (notReserved : isReserved s = false) :
    (Outline.ofText (s ++ "()").toList).innermost = .ok (some ⟨[], s.toList, [], [], []⟩) ↔
      IsAscii s := by
  have identifier := isIdentifier_iff_isAscii h
  refine ⟨fun found => identifier.mp ((Bool.eq_false_or_eq_true _).resolve_right fun other => ?_),
    fun ascii => innermost_call_empty (identifier.mpr ascii) notReserved⟩
  rw [innermost_of_not_isIdentifier h other] at found
  cases found

/-- A name is parsed as itself exactly if it is in ASCII. -/
theorem parse_name_iff (h : isFunctionName s = true) (notReserved : isReserved s = false) :
    Expr.parse s = .ok (.name s) ↔ IsAscii s :=
  ⟨isAscii_of_parse h, fun ascii => parse_name ((isIdentifier_iff_isAscii h).mpr ascii) notReserved⟩

/-- A call of any other name is refused by the parser, and no call to the scanner. -/
theorem unread_call_of_not_isAscii (h : isFunctionName s = true) (other : ¬ IsAscii s) :
    (∃ cause, Expr.parse (s ++ "()") = .error cause) ∧
      (Outline.ofText (s ++ "()").toList).innermost = .ok none := by
  constructor
  · cases parsed : Expr.parse (s ++ "()") with
    | error cause => exact ⟨cause, rfl⟩
    | ok e => exact absurd (isAscii_of_parse_call h parsed) other
  · have strange := mt (isIdentifier_iff_isAscii h).mp other
    exact innermost_of_not_isIdentifier h (Bool.eq_false_iff.mpr strange)

/-- Any other name is refused by the parser. -/
theorem unread_of_not_isAscii (h : isFunctionName s = true) (other : ¬ IsAscii s) :
    ∃ cause, Expr.parse s = .error cause := by
  cases parsed : Expr.parse s with
  | error cause => exact ⟨cause, rfl⟩
  | ok e => exact absurd (isAscii_of_parse h parsed) other

end Usable

/-- The parameters of an accepted definition are names, and none is reserved. -/
theorem Definition.named_of_parameterFault? {owner : String} {seen ps : List String}
    (h : parameterFault? owner seen ps = none) :
    ∀ p ∈ ps, isFunctionName p = true ∧ isReserved p = false := by
  induction ps generalizing seen with
  | nil => exact List.forall_mem_nil _
  | cons p ps ih =>
      rw [parameterFault?] at h
      split_ifs at h with invalid again
      exact List.forall_mem_cons.mpr ⟨by simpa using invalid, ih h⟩

namespace Library

/-- **A function that is accepted can be called exactly if its name is in ASCII**, and
its parameters can be used exactly if theirs are.  Else what is accepted is never read
as a name by any formula. -/
theorem define_usable {l l' : Library} {d : Definition} (h : l.define d = .ok l') :
    ∃ f, l'.find? d.name = some f ∧ f.definition.parameters = d.parameters ∧
      let name := f.definition.name
      name = capitals d.name ∧
      (Expr.parse (name ++ "()") = .ok (.call name []) ↔ IsAscii name) ∧
      ((Outline.ofText (name ++ "()").toList).innermost =
        .ok (some ⟨[], name.toList, [], [], []⟩) ↔ IsAscii name) ∧
      (¬ IsAscii name → (∃ cause, Expr.parse (name ++ "()") = .error cause) ∧
        (Outline.ofText (name ++ "()").toList).innermost = .ok none) ∧
      ∀ p ∈ d.parameters, (Expr.parse p = .ok (.name p) ↔ IsAscii p) ∧
        (¬ IsAscii p → ∃ cause, Expr.parse p = .error cause) := by
  obtain ⟨f, compiled, rfl⟩ := define_eq_ok_iff.mp h
  obtain ⟨isName, accepted, e, -, rfl⟩ := Definition.compile_eq_ok_iff.mp compiled
  have stored := isFunctionName_capitals isName
  have notReserved := isReserved_eq_false_of_capitals (capitals_capitals d.name)
  have parameters := Definition.named_of_parameterFault? accepted
  refine ⟨_, find?_add_self rfl, rfl, rfl, parse_call_iff stored,
    innermost_call_iff stored notReserved, unread_call_of_not_isAscii stored, fun p hp => ?_⟩
  obtain ⟨isName, notReserved⟩ := parameters p hp
  exact ⟨parse_name_iff isName notReserved, unread_of_not_isAscii isName⟩

/-- A function that is named by the Kelvin sign. -/
def kelvin : Definition := ⟨"\u212a", "", [], "return 273.15;"⟩

/-- A function of a parameter with a long s. -/
def halved : Definition := ⟨"half", "", ["maſs"], "return 0.5;"⟩

/-- One function can be called by its name in capitals, and its parameters be used;
the other is accepted, and nothing is read as a call of it. -/
theorem define_usable_turned_kelvin :
    (∃ l f, empty.define turned = .ok l ∧ l.find? "Turned_3" = some f ∧
      f.definition.name = "TURNED_3" ∧ Expr.parse "TURNED_3()" = .ok (.call "TURNED_3" []) ∧
      ∀ p ∈ turned.parameters, Expr.parse p = .ok (.name p)) ∧
    ∃ l f, empty.define kelvin = .ok l ∧ l.find? "\u212a" = some f ∧
      (∃ cause, Expr.parse (f.definition.name ++ "()") = .error cause) ∧
      (Outline.ofText (f.definition.name ++ "()").toList).innermost = .ok none := by
  have accepted : ∀ {d}, (empty.define d).toOption.isSome = true → ∃ l, empty.define d = .ok l := by
    intro d some
    cases defined : empty.define d with
    | error cause =>
        rw [defined] at some
        cases some
    | ok l => exact ⟨l, rfl⟩
  obtain ⟨l, first⟩ := accepted (d := turned) (by decide +kernel)
  obtain ⟨l', second⟩ := accepted (d := kelvin) (by decide +kernel)
  obtain ⟨f, found, -, name, parsed, -, -, parameters⟩ := define_usable first
  obtain ⟨f', found', -, name', -, -, unread, -⟩ := define_usable second
  have capital : capitals turned.name = "TURNED_3" := by decide +kernel
  rw [name, capital] at parsed
  refine ⟨⟨l, f, first, found, name.trans capital, parsed.mpr (by decide +kernel), ?_⟩, ?_⟩
  · have ascii : ∀ p ∈ turned.parameters, IsAscii p := by decide +kernel
    exact fun p hp => (parameters p hp).1.mpr (ascii p hp)
  · exact ⟨l', f', second, found', unread (by rw [name']; decide +kernel)⟩

/-- So not every function that is accepted can be called, nor every parameter used. -/
theorem kelvin_halved_accepted :
    ((empty.define kelvin).toOption.bind fun l => (l.find? "\u212a").map (·.definition.name)) =
      some "\u212a" ∧
    (Expr.parse "\u212a()").toOption.isNone = true ∧
    (empty.define halved).toOption.isSome = true ∧
    (Expr.parse "maſs").toOption.isNone = true := by
  refine ⟨by decide +kernel, by decide +kernel, by decide +kernel, by decide +kernel⟩

end Library

end FormulaSheet
