import FormulaSheet.Proofs.JsonValue
import FormulaSheet.Proofs.Overlay

/-!
# Libraries are rebuilt from their definitions

What a library exports are its definitions as they were accepted: the name in
capitals, the body as its author wrote it.  Accepting such a definition again
gives the same function, since capitals change nothing about a name that is
checked without regard to case, and the body is parsed as before.  A library is
determined by what is found in it, so it does not matter in which order its
definitions come back; and nothing but the definitions is left of its history.

The definitions may be sent as JSON, which is read back whatever is in them.

* `Definition.compile_definition` — a definition that was accepted is accepted
  again, and compiles to the same function;
* `Definition.listOfJson?_listToJson` — definitions are read back from JSON;
* `Library.Overlaid.ext` — a library is determined by its look-ups;
* `Library.rebuilt_after` — importing what was exported.
-/

namespace FormulaSheet

namespace Json

variable {α : Type}

theorem member?_ofMembers (key : String) (ms : List (String × Json)) :
    (ofMembers ms).member? key = Entries.find? key ms.reverse :=
  Entries.find?_ofList key ms

/-- A list is read back if each of its items is. -/
theorem list?_map {read : Json → Option α} {write : α → Json} {as : List α}
    (h : ∀ a ∈ as, read (write a) = some a) : list? read (.array (as.map write)) = some as := by
  rw [list?, asArray?, Option.bind_some]
  induction as with
  | nil => rfl
  | cons a as ih =>
      rw [List.map_cons, List.mapM_cons, h a List.mem_cons_self,
        ih fun b hb => h b (List.mem_cons_of_mem _ hb)]
      rfl

end Json

/-- In capitals a character is itself or a capital letter. -/
theorem toUpper_eq_or_isUpper (c : Char) : c.toUpper = c ∨ c.toUpper.isUpper = true := by
  unfold Char.toUpper
  split
  · rename_i lower
    right
    obtain ⟨low, high⟩ := lower
    rw [UInt32.le_iff_toNat_le] at low high
    simp only [Char.isUpper, ge_iff_le, decide_eq_true_eq, UInt32.le_iff_toNat_le,
      UInt32.toNat_add, UInt32.toNat_sub]
    simp at low high ⊢
    omega
  · exact .inl rfl

theorem opensName_of_isUpper {c : Char} (h : c.isUpper = true) : opensName c = true := by
  simp [opensName, Char.isAlpha, h]

/-- Identifiers are the names of functions that are written in ASCII letters, digits and
underscores: two other letters can begin such a name. -/
theorem isIdentifier_iff {w : List Char} : isIdentifier w = true ↔
    isFunctionName (String.ofList w) = true ∧ ∀ c ∈ w, isNamePart c = true := by
  have start : ∀ c, isNameStart c = true → opensName c = true ∧ isNamePart c = true := by
    intro c hc
    simp only [isNameStart, Bool.or_eq_true] at hc
    rcases hc with hc | hc <;> simp [opensName, isNamePart, Char.isAlphanum, hc]
  have part : ∀ c, isNamePart c = true → (opensName c || c.isDigit) = true := by
    intro c hc
    simp only [isNamePart, Char.isAlphanum, Bool.or_eq_true] at hc
    rcases hc with (hc | hc) | hc <;> simp [opensName, hc]
  have opens : ∀ c, opensName c = true → isNamePart c = true → isNameStart c = true := by
    intro c hc among
    simp only [opensName, Bool.or_eq_true, beq_iff_eq] at hc
    rcases hc with (hc | rfl) | rfl
    · simpa [isNameStart] using hc
    · exact absurd among (by decide)
    · exact absurd among (by decide)
  unfold isFunctionName
  rw [String.toList_ofList]
  cases w with
  | nil => simp [isIdentifier]
  | cons c cs =>
      simp only [isIdentifier, Bool.and_eq_true, List.all_eq_true, List.forall_mem_cons]
      constructor
      · rintro ⟨first, others⟩
        exact ⟨⟨(start c first).1, fun d hd => part d (others d hd)⟩, (start c first).2, others⟩
      · rintro ⟨⟨first, -⟩, among, others⟩
        exact ⟨opens c first among, others⟩

/-- The name of a function is one in capitals too. -/
theorem isFunctionName_capitals {s : String} (h : isFunctionName s = true) :
    isFunctionName (capitals s) = true := by
  have opens : ∀ c : Char, opensName c = true → opensName c.toUpper = true := by
    intro c hc
    rcases toUpper_eq_or_isUpper c with same | upper
    · rwa [same]
    · exact opensName_of_isUpper upper
  have goesOn : ∀ c : Char, (opensName c || c.isDigit) = true →
      (opensName c.toUpper || c.toUpper.isDigit) = true := by
    intro c hc
    rcases toUpper_eq_or_isUpper c with same | upper
    · rwa [same]
    · rw [opensName_of_isUpper upper]
      rfl
  unfold isFunctionName at h ⊢
  rw [capitals, String.toList_ofList]
  cases chars : s.toList with
  | nil =>
      rw [chars] at h
      cases h
  | cons c cs =>
      rw [chars] at h
      obtain ⟨first, others⟩ := Bool.and_eq_true_iff.mp h
      refine Bool.and_eq_true_iff.mpr ⟨opens c first, ?_⟩
      rw [List.all_map, List.all_eq_true]
      exact fun d hd => goesOn d (List.all_eq_true.mp others d hd)

namespace Definition

/-- What a definition has to be in order to be accepted, and what it is
compiled to. -/
theorem compile_eq_ok_iff {d : Definition} {f : CompiledFunction} :
    d.compile = .ok f ↔ isFunctionName d.name = true ∧
      parameterFault? (capitals d.name) [] d.parameters = none ∧
      ∃ e, Expr.ofChars (statementBody d.body.toList) = .ok e ∧
        f = ⟨{ d with name := capitals d.name }, e⟩ := by
  unfold compile
  cases isFunctionName d.name with
  | false => simp
  | true =>
      cases parameterFault? (capitals d.name) [] d.parameters with
      | some e => simp
      | none =>
          cases Expr.ofChars (statementBody d.body.toList) with
          | error e => simp [Except.map]
          | ok e => simp [Except.map, eq_comm]

/-- **A definition that was accepted is accepted again**, as what it was. -/
theorem compile_definition {d : Definition} {f : CompiledFunction} (h : d.compile = .ok f) :
    f.definition.compile = .ok f := by
  obtain ⟨name, parameters, e, body, rfl⟩ := compile_eq_ok_iff.mp h
  refine compile_eq_ok_iff.mpr ⟨isFunctionName_capitals name, ?_, e, body, ?_⟩
  · rw [capitals_capitals]
    exact parameters
  · rw [capitals_capitals]

/-- A definition is read from its tree. -/
theorem ofJson?_toJson (d : Definition) : ofJson? d.toJson = some d := by
  have parameters : Json.list? Json.asText? (.array (d.parameters.map .text)) =
      some d.parameters := Json.list?_map fun _ _ => rfl
  have members : ∀ key, d.toJson.member? key = Entries.find? key
      [("body", .text d.body), ("parameters", .array (d.parameters.map .text)),
        ("description", .text d.description), ("name", .text d.name)] :=
    fun key => Json.member?_ofMembers key _
  obtain ⟨ms, object⟩ : ∃ ms, d.toJson = .object ms := ⟨_, rfl⟩
  rw [object] at members ⊢
  rw [ofJson?, Json.record?]
  simp [Json.required?, Json.defaulted?, Json.memberOrNull, members, Entries.find?,
    Json.asText?, parameters]

/-- Definitions as JSON. -/
def listToJson (ds : List Definition) : Json := .array (ds.map toJson)

/-- Reads definitions from JSON. -/
def listOfJson? : Json → Option (List Definition) := Json.list? ofJson?

/-- Definitions as JSON text. -/
def toText (t : JsonText) (ds : List Definition) : String := t.write (listToJson ds)

/-- Reads definitions from JSON text. -/
def ofText? (t : JsonText) (text : String) : Option (List Definition) :=
  (t.read? text).bind listOfJson?

/-- **Definitions are read from their tree**, whatever is in them. -/
theorem listOfJson?_listToJson (ds : List Definition) : listOfJson? (listToJson ds) = some ds :=
  Json.list?_map fun d _ => d.ofJson?_toJson

/-- Definitions are read from their text, if the text is read as the tree that it
was written for. -/
theorem ofText?_toText {t : JsonText} {ds : List Definition} (kept : t.Keeps (listToJson ds)) :
    ofText? t (toText t ds) = some ds := by
  rw [ofText?, toText, kept, Option.bind_some, listOfJson?_listToJson]

end Definition

namespace Library

/-- What is found under a name once definitions are accepted in a new library:
what the last of them compiles to that has the name and is accepted. -/
theorem find?_addAll_empty (ds : List Definition) (name : String) :
    (empty.addAll ds).2.find? name = ds.reverse.findSome? (accepted? name) := by
  have found := find?_after [.addAll ds] name
  exact found.trans Option.or_none

/-- A library is determined by what is found in it. -/
theorem Overlaid.ext {l l' : Library} (hl : l.Overlaid) (hl' : l'.Overlaid)
    (same : ∀ name, l.find? name = l'.find? name) : l = l' := by
  have filed : ∀ {m : Library}, m.Overlaid → ∀ key,
      m.functions.get? key = if capitals key = key then m.find? key else none := by
    intro m hm key
    by_cases capital : capitals key = key
    · rw [if_pos capital, find?, capital]
    · rw [if_neg capital]
      cases h : m.functions.get? key with
      | none => rfl
      | some f => exact absurd (hm.capital h) capital
  have functions : l.functions = l'.functions := by
    apply Table.ext_get?
    intro key
    rw [filed hl, filed hl', same]
  have registry : l.registry.functions = l'.registry.functions := by
    apply Table.ext_get?
    intro key
    rw [hl.registry, hl'.registry, functions]
  obtain ⟨_, ⟨_⟩⟩ := l
  obtain ⟨_, ⟨_⟩⟩ := l'
  cases functions
  cases registry
  rfl

/-- What a definition that is accepted compiles to would be accepted again. -/
theorem compile_of_accepted? {name : String} {d : Definition} {f : CompiledFunction}
    (h : accepted? name d = some f) : f.definition.compile = .ok f := by
  unfold accepted? at h
  split at h
  · cases compiled : d.compile with
    | error e => rw [compiled] at h; cases h
    | ok g =>
        rw [compiled] at h
        cases h
        exact Definition.compile_definition compiled
  · cases h

/-- If what was found before would be accepted again, so would what a request
leaves. -/
theorem Request.compile_of_leaves? {name : String} {known : Option CompiledFunction}
    (before : ∀ f, known = some f → f.definition.compile = .ok f) (r : Request)
    {f : CompiledFunction} (h : r.leaves? name known = some f) :
    f.definition.compile = .ok f := by
  cases r with
  | define d =>
      rcases Option.or_eq_some_iff.mp h with now | ⟨-, earlier⟩
      · exact compile_of_accepted? now
      · exact before f earlier
  | remove gone =>
      rw [leaves?] at h
      split at h
      · cases h
      · exact before f h
  | addAll ds =>
      rcases Option.or_eq_some_iff.mp h with now | ⟨-, earlier⟩
      · obtain ⟨d, -, hd⟩ := List.exists_of_findSome?_eq_some now
        exact compile_of_accepted? hd
      · exact before f earlier

/-- What is defined would be accepted again. -/
theorem compile_of_find?_after {requests : List Request} {name : String} {f : CompiledFunction}
    (h : (after requests).find? name = some f) : f.definition.compile = .ok f := by
  have run : ∀ (rs : List Request) (known : Option CompiledFunction),
      (∀ f, known = some f → f.definition.compile = .ok f) →
      ∀ f, rs.foldl (Request.leaves? name) known = some f → f.definition.compile = .ok f := by
    intro rs
    induction rs with
    | nil => exact fun known before => before
    | cons r rs ih => exact fun known before => ih _ fun f => r.compile_of_leaves? before
  rw [find?_after] at h
  exact run requests none (fun f h => by cases h) f h

/-- What is exported is what is found under the names in capitals. -/
theorem mem_definitions_after {requests : List Request} {d : Definition} :
    d ∈ (after requests).definitions ↔
      ∃ f, (after requests).find? d.name = some f ∧ f.definition = d := by
  have overlaid := overlaid_after requests
  simp only [definitions, Table.values, List.map_map, List.mem_map, Prod.exists]
  constructor
  · rintro ⟨key, f, filed, rfl⟩
    have found := (Table.mem_entries_iff _ _ _).mp filed
    refine ⟨f, ?_, rfl⟩
    rw [Function.comp_apply, find?, overlaid.named found, overlaid.capital found]
    exact found
  · rintro ⟨f, found, rfl⟩
    exact ⟨_, f, (Table.mem_entries_iff _ _ _).mpr found, rfl⟩

/-- A definition that is exported is accepted under the names it was found
under. -/
theorem accepted?_of_mem_definitions {requests : List Request} {d : Definition}
    (h : d ∈ (after requests).definitions) (name : String) :
    accepted? name d =
      if capitals d.name = capitals name then (after requests).find? name else none := by
  obtain ⟨f, found, rfl⟩ := mem_definitions_after.mp h
  rw [accepted?, compile_of_find?_after found]
  by_cases same : capitals f.definition.name = capitals name
  · rw [if_pos same, if_pos same, find?, ← same]
    exact found.symm
  · rw [if_neg same, if_neg same]

/-- In whatever order the definitions of a library are gone through, under every
name they give what is found in the library. -/
theorem findSome?_accepted? {requests : List Request} {ds : List Definition}
    (perm : ds.Perm (after requests).definitions) (name : String) :
    ds.findSome? (accepted? name) = (after requests).find? name := by
  cases given : ds.findSome? (accepted? name) with
  | some f =>
      obtain ⟨d, hd, accepted⟩ := List.exists_of_findSome?_eq_some given
      rw [accepted?_of_mem_definitions (perm.mem_iff.mp hd)] at accepted
      split at accepted
      · exact accepted.symm
      · cases accepted
  | none =>
      cases found : (after requests).find? name with
      | none => rfl
      | some f =>
          have own : capitals f.definition.name = capitals name := by
            rw [(overlaid_after requests).named found, capitals_capitals]
          have exported : f.definition ∈ (after requests).definitions :=
            mem_definitions_after.mpr ⟨f, by rw [find?, own]; exact found, rfl⟩
          have refused := List.findSome?_eq_none_iff.mp given _ (perm.mem_iff.mpr exported)
          rw [accepted?_of_mem_definitions exported, if_pos own, found] at refused
          cases refused

/-- A library is rebuilt from its definitions, in whatever order they come. -/
theorem addAll_empty_of_perm {requests : List Request} {ds : List Definition}
    (perm : ds.Perm (after requests).definitions) :
    empty.addAll ds = (ds.length, after requests) := by
  refine Prod.ext ?_ ?_
  · rw [addAll_eq, List.countP_eq_length]
    intro d hd
    obtain ⟨f, found, rfl⟩ := mem_definitions_after.mp (perm.mem_iff.mp hd)
    rw [compile_of_find?_after found]
    rfl
  · refine Overlaid.ext (overlaid_after [.addAll ds]) (overlaid_after requests) fun name => ?_
    rw [find?_addAll_empty]
    exact findSome?_accepted? ((List.reverse_perm ds).trans perm) name

/-- **A library is rebuilt from what it exports.**  After any requests to a new
library its definitions, in any order, are read back from their JSON tree, and
from any text that is read as that tree; a new library that imports them accepts
every one, exports the same definitions in the same order, and every formula
comes to the same in the evaluators made from the two, on any host and in any
context, with the same dependencies. -/
theorem rebuilt_after (requests : List Request) {ds : List Definition}
    (perm : ds.Perm (after requests).definitions) :
    Definition.listOfJson? (Definition.listToJson ds) = some ds ∧
      (∀ t : JsonText, t.Keeps (Definition.listToJson ds) →
        Definition.ofText? t (Definition.toText t ds) = some ds) ∧
      (empty.addAll ds).1 = ds.length ∧
      (empty.addAll ds).2.definitions = (after requests).definitions ∧
      ∀ host c formula, ((empty.addAll ds).2.evaluator host c).evaluate formula =
        ((after requests).evaluator host c).evaluate formula := by
  rw [addAll_empty_of_perm perm]
  exact ⟨Definition.listOfJson?_listToJson ds, fun t kept => Definition.ofText?_toText kept,
    rfl, rfl, fun _ _ _ => rfl⟩

/-- The text of two definitions, as it is written without blanks. -/
def twoDefinitions : String :=
  "[\x7b\"name\":\"FIB\",\"description\":\"\",\"parameters\":[\"n\"]," ++
  "\"body\":\"n < 2 ? n : FIB(n - 1) + FIB(n - 2)\"\x7d," ++
  "\x7b\"name\":\"ABS\",\"description\":\"shadow\",\"parameters\":[\"x\"]," ++
  "\"body\":\"return x < 0 ? -x : x;\"\x7d]"

/-- A statement in a name that covers a built-in function, a function that calls
itself, one that is removed again and one that is refused; they come back from
the last to the first. -/
theorem rebuilt_after_backwards :
    let requests : List Request :=
      [.define ⟨"abs", "shadow", ["x"], "return x < 0 ? -x : x;"⟩,
        .define ⟨"gone", "", [], "1"⟩,
        .addAll [⟨"Fib", "", ["n"], "n < 2 ? n : FIB(n - 1) + FIB(n - 2)"⟩,
          ⟨"two words", "", [], "2"⟩],
        .remove "GONE"]
    let ds := (after requests).definitions.reverse
    let t : JsonText := .knowing (Definition.listToJson ds) twoDefinitions
    ds.Perm (after requests).definitions ∧
      ds = [⟨"FIB", "", ["n"], "n < 2 ? n : FIB(n - 1) + FIB(n - 2)"⟩,
        ⟨"ABS", "shadow", ["x"], "return x < 0 ? -x : x;"⟩] ∧
      t.Keeps (Definition.listToJson ds) ∧
      Definition.listOfJson? (Definition.listToJson ds) = some ds ∧
      Definition.ofText? t twoDefinitions = some ds ∧
      (empty.addAll ds).1 = 2 ∧
      (empty.addAll ds).2.definitions = (after requests).definitions ∧
      ∀ host c formula, ((empty.addAll ds).2.evaluator host c).evaluate formula =
        ((after requests).evaluator host c).evaluate formula := by
  intro requests ds t
  have perm : ds.Perm (after requests).definitions := List.reverse_perm _
  have exported : ds = [⟨"FIB", "", ["n"], "n < 2 ? n : FIB(n - 1) + FIB(n - 2)"⟩,
      ⟨"ABS", "shadow", ["x"], "return x < 0 ? -x : x;"⟩] := by decide +kernel
  have kept : t.Keeps (Definition.listToJson ds) := JsonText.keeps_knowing _ _
  obtain ⟨tree, text, count, same, results⟩ := rebuilt_after requests perm
  exact ⟨perm, exported, kept, tree, text t kept, count.trans (congrArg List.length exported),
    same, results⟩

end Library

end FormulaSheet
