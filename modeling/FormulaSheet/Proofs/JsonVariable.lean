import FormulaSheet.Proofs.Lookalike
import FormulaSheet.Proofs.Rebuilding
import FormulaSheet.Variable

/-!
# Variables are read back from JSON

What is missing in the definition of a variable is left out of its tree, and
what is missing in its rules is null there.  Either way it is missing again
when the tree is read.  A definition is read from every tree that is written,
and it is the one that was written but for three things: a default of null is
missing, a bound that JSON has no number for is missing, and a value may be
taken for a number.  That NaNs are no longer told apart is not counted.

* `Value.ofJson_toJson_iff` — the values that are read from their trees;
* `Rules.ofJson?_toJson`, `Variable.ofJson?_toJson` — what is read, whatever was
  written;
* `Variable.ofJson?_toJson_eq_self_iff` — exactly when that is what was written.
-/

namespace FormulaSheet

namespace Value

/-- The number that a value is taken for without looking like it: an array of a
record with its name for the only key, or such a record under `$number`. -/
def mistaken? : Value → Option Float
  | object [(key, v)] => if key = "$number" then v.soleKey?.bind namedNumbers.find? else none
  | array [v] => v.soleKey?.bind namedNumbers.find?
  | _ => none

/-- Text is no record. -/
theorem bind_asText?_or_soleKey? {α : Type} (v : Value) (f : String → Option α) :
    (v.asText?.or v.soleKey?).bind f = (v.asText?.bind f).or (v.soleKey?.bind f) := by
  cases v <;> simp [asText?, soleKey?]

/-- An array or an object is taken for a number if it looks like one, or without
looking like it. -/
theorem taken?_eq_or_mistaken? (v : Value) : v.taken? = v.lookalike?.or v.mistaken? := by
  cases v with
  | null | bool | number | text => rfl
  | array vs =>
      have others : (array vs).mistaken? = (array vs).namesake? := by
        rcases vs with _ | ⟨v, _ | ⟨w, vs⟩⟩ <;> rfl
      rw [others]
      exact special?_toJson_array vs
  | object fs =>
      rw [taken?, toJson_object]
      rcases fs with _ | ⟨⟨key, v⟩, _ | ⟨f, fs⟩⟩
      · rfl
      · rw [List.map_singleton, special?, lookalike?, mistaken?, asChoice?_toJson,
          ofSpecialName?_eq, bind_asText?_or_soleKey?]
        split <;> rfl
      · rfl

/-- **A value is read from its tree**, but for NaNs that are no longer told apart,
just if nothing in it looks like a number or is taken for one. -/
theorem ofJson_toJson_iff {v : Value} : ofJson v.toJson = v.regular ↔
    v.Throughout fun w => w.lookalike? = none ∧ w.mistaken? = none := by
  have same : (fun w : Value => w.taken? = none) =
      fun w => w.lookalike? = none ∧ w.mistaken? = none :=
    funext fun w => propext (by rw [taken?_eq_or_mistaken?, Option.or_eq_none_iff])
  rw [ofJson_toJson_eq_regular_iff, Unmistaken, same]

end Value

namespace Json

variable {α : Type} {read : Json → Option α} {write : α → Json} {f : α → Option α}

theorem defaulted?_of_member? {j m : Json} {k : String} {d a : α}
    (member : j.member? k = some m) (h : read m = some a) :
    j.defaulted? read d k = some a := by
  rw [defaulted?, member]
  exact h

/-- What may be missing is read from where null stands for it. -/
theorem optional?_optionToJson (h : ∀ a, optional? read (write a) = some (f a))
    (o : Option α) : optional? read (Rules.optionToJson write o) = some (o.bind f) := by
  cases o with
  | none => rfl
  | some a => exact h a

/-- What may be missing is read from where it is left out. -/
theorem defaulted?_of_optionalMember (h : ∀ a, optional? read (write a) = some (f a))
    {j : Json} {k : String} {o : Option α} (member : j.member? k = o.map write) :
    j.defaulted? (optional? read) none k = some (o.bind f) := by
  cases o with
  | none => rw [defaulted?, member]; rfl
  | some a => exact defaulted?_of_member? member (h a)

end Json

namespace Rules

/-- A number as a bound is read from its tree. -/
def finite? (x : Float) : Option Float := if x.isFinite then some x else none

/-- Rules as they are read from their tree. -/
def reread (r : Rules) : Rules :=
  { r with
    min := r.min.bind finite?
    max := r.max.bind finite?
    allowed := r.allowed.map fun vs => vs.map fun v => .ofJson v.toJson }

theorem optional?_boundToJson (x : Float) :
    Json.optional? Json.asFloat? (boundToJson x) = some (finite? x) := by
  unfold boundToJson finite?
  split <;> rfl

theorem optional?_allowedToJson (vs : List Value) :
    Json.optional? (Json.list? fun j => some (Value.ofJson j)) (.array (vs.map Value.toJson)) =
      some (some (vs.map fun v => Value.ofJson v.toJson)) := by
  have items : (vs.map Value.toJson).mapM (fun j => some (Value.ofJson j)) =
      some ((vs.map Value.toJson).map Value.ofJson) := List.mapM_pure
  rw [Json.optional?, Json.list?, Json.asArray?, Option.bind_some, items, List.map_map]
  · rfl
  · intro null
    cases null

/-- **Rules are read from their tree**, whatever is in them. -/
theorem ofJson?_toJson (r : Rules) : ofJson? r.toJson = some r.reread := by
  have members : ∀ key, r.toJson.member? key = Entries.find? key _ :=
    fun key => Json.member?_ofMembers key _
  obtain ⟨ms, object⟩ : ∃ ms, r.toJson = .object ms := ⟨_, rfl⟩
  rw [object] at members ⊢
  have bound := Json.optional?_optionToJson optional?_boundToJson
  have count : ∀ o : Option Nat,
      Json.optional? Json.asNat? (optionToJson (fun n => .integer n) o) = some o := by
    intro o
    cases o <;> rfl
  have text : ∀ o : Option String,
      Json.optional? Json.asText? (optionToJson .text o) = some o := by
    intro o
    cases o <;> rfl
  have required : (Json.object ms).defaulted? Json.asBool? false "required" = some r.required :=
    Json.defaulted?_of_member? (members _) rfl
  have min := Json.defaulted?_of_member? (d := none) (members "min") (bound r.min)
  have max := Json.defaulted?_of_member? (d := none) (members "max") (bound r.max)
  have minLength := Json.defaulted?_of_member? (d := none) (members "minLength")
    (count r.minLength)
  have maxLength := Json.defaulted?_of_member? (d := none) (members "maxLength")
    (count r.maxLength)
  have pattern := Json.defaulted?_of_member? (d := none) (members "pattern")
    (text r.pattern)
  have allowed := Json.defaulted?_of_member? (d := none) (members "allowedValues")
    (Json.optional?_optionToJson optional?_allowedToJson r.allowed)
  rw [ofJson?, Json.record?]
  simp only [required, min, max, minLength, maxLength, pattern, allowed]
  rw [reread, Option.map_eq_bind]
  rfl

/-- Rules with every NaN replaced by the one that is read. -/
def regular (r : Rules) : Rules :=
  { r with allowed := r.allowed.map fun vs => vs.map Value.regular }

/-- The numbers that bound others. -/
def bounds (r : Rules) : List Float := r.min.toList ++ r.max.toList

/-- The values that are allowed. -/
def choices (r : Rules) : List Value := r.allowed.toList.flatten

theorem bind_finite?_eq_iff {o : Option Float} :
    o.bind finite? = o ↔ ∀ x ∈ o.toList, x.isFinite = true := by
  cases o with
  | none => simp
  | some x => simp [finite?]

/-- Rules come back just if their bounds are finite and the values that they
allow come back. -/
theorem reread_eq_iff {r : Rules} : r.reread = r.regular ↔
    (∀ x ∈ r.bounds, x.isFinite = true) ∧
      ∀ w ∈ r.choices, Value.ofJson w.toJson = w.regular := by
  have allowed : r.allowed.map (fun vs => vs.map fun v => Value.ofJson v.toJson) =
      (r.allowed.map fun vs => vs.map Value.regular) ↔
      ∀ w ∈ r.choices, Value.ofJson w.toJson = w.regular := by
    unfold choices
    cases r.allowed with
    | none => simp
    | some vs => simp [List.map_inj_left]
  rw [bounds, List.forall_mem_append, ← bind_finite?_eq_iff, ← bind_finite?_eq_iff, ← allowed,
    and_assoc]
  constructor
  · intro same
    exact ⟨congrArg Rules.min same, congrArg Rules.max same, congrArg Rules.allowed same⟩
  · rintro ⟨min, max, allowed⟩
    rw [reread, min, max, allowed, regular]

end Rules

namespace Variable

/-- A definition as it is read from its tree. -/
def reread (v : Variable) : Variable :=
  { v with
    default := v.default.bind fun w => if w.isNull then none else some (.ofJson w.toJson)
    rules := v.rules.map Rules.reread }

theorem find?_optionalMember {α : Type} (other key : String) (write : α → Json) (o : Option α) :
    Entries.find? other (optionalMember key write o).reverse =
      if other = key then o.map write else none := by
  cases o with
  | none => simp [optionalMember, Entries.find?]
  | some a => simp [optionalMember, Entries.find?, eq_comm]

theorem optional?_toJson (w : Value) :
    Json.optional? (fun j => some (Value.ofJson j)) w.toJson =
      some (if w.isNull then none else some (.ofJson w.toJson)) := by
  cases null : w.isNull with
  | true => rw [(Value.toJson_eq_null_iff w).mpr null]; rfl
  | false =>
      have value : w.toJson ≠ .null := by
        rw [Ne, Value.toJson_eq_null_iff, null]
        exact Bool.false_ne_true
      rw [Json.optional?]
      · rfl
      · exact value

/-- **A definition is read from its tree**, whatever is in it. -/
theorem ofJson?_toJson (v : Variable) : ofJson? v.toJson = some v.reread := by
  have members : ∀ key, v.toJson.member? key = Entries.find? key _ :=
    fun key => Json.member?_ofMembers key _
  obtain ⟨ms, object⟩ : ∃ ms, v.toJson = .object ms := ⟨_, rfl⟩
  rw [object] at members ⊢
  simp only [List.reverse_append, Entries.find?_append, find?_optionalMember] at members
  have rules : ∀ r : Rules, Json.optional? Rules.ofJson? r.toJson = some (some r.reread) := by
    intro r
    rw [Json.optional?, r.ofJson?_toJson]
    · rfl
    · intro null
      cases null
  have text : ∀ {k : String} {o : Option String}, (Json.object ms).member? k = o.map .text →
      (Json.object ms).defaulted? (Json.optional? Json.asText?) none k = some o := by
    intro k o member
    rw [Json.defaulted?_of_optionalMember (f := some) (fun _ => rfl) member, Option.bind_fun_some]
  have default := Json.defaulted?_of_optionalMember optional?_toJson (j := .object ms)
    (k := "defaultValue") (o := v.default) (by rw [members]; simp [Entries.find?])
  have rules := Json.defaulted?_of_optionalMember rules (j := .object ms)
    (k := "validation") (o := v.rules) (by rw [members]; simp [Entries.find?])
  have formula := text (k := "formula") (o := v.formula) (by rw [members]; simp [Entries.find?])
  have description := text (k := "description") (o := v.description)
    (by rw [members]; simp [Entries.find?])
  have id : (Json.object ms).required? Json.asText? "id" = some v.id := by
    rw [Json.required?, Json.memberOrNull, members]
    rfl
  have name : (Json.object ms).required? Json.asText? "name" = some v.name := by
    rw [Json.required?, Json.memberOrNull, members]
    rfl
  have type : (Json.object ms).required? (fun t => t.asChoice?.bind VariableType.ofName?) "type" =
      some v.type := by
    rw [Json.required?, Json.memberOrNull, members]
    exact v.type.ofName?_name
  have lifetime : (Json.object ms).defaulted? (fun l => l.asChoice?.bind Lifetime.ofName?)
      .permanent "scope" = some v.lifetime :=
    Json.defaulted?_of_member? (members _) v.lifetime.ofName?_name
  rw [ofJson?, Json.record?]
  simp only [id, name, type, lifetime, default, formula, rules, description]
  rw [reread, Option.map_eq_bind]
  rfl

/-- A definition with every NaN in its values replaced by the one that is read. -/
def regular (v : Variable) : Variable :=
  { v with
    default := v.default.map Value.regular
    rules := v.rules.map Rules.regular }

/-- The numbers that bound the values of a variable. -/
def bounds (v : Variable) : List Float := v.rules.toList.flatMap Rules.bounds

/-- The values in a definition: the default and those that are allowed. -/
def values (v : Variable) : List Value := v.default.toList ++ v.rules.toList.flatMap Rules.choices

/-- A default comes back just if it is not null and comes back as a value. -/
theorem rereadDefault_eq_iff {o : Option Value} :
    (o.bind fun w => if w.isNull then none else some (.ofJson w.toJson)) =
      o.map Value.regular ↔
      o ≠ some .null ∧ ∀ w ∈ o.toList, Value.ofJson w.toJson = w.regular := by
  cases o with
  | none => simp
  | some w => cases w <;> simp [Value.isNull]

/-- Rules come back if they are missing, or else as rules do. -/
theorem rereadRules_eq_iff {o : Option Rules} :
    o.map Rules.reread = o.map Rules.regular ↔
      (∀ x ∈ o.toList.flatMap Rules.bounds, x.isFinite = true) ∧
        ∀ w ∈ o.toList.flatMap Rules.choices, Value.ofJson w.toJson = w.regular := by
  cases o with
  | none => simp
  | some r => simpa using Rules.reread_eq_iff

/-- **A definition is read back from its tree** just if its default is not null,
its bounds are finite, and no value in it looks like a number or is taken for
one.  Which NaN there is in a value is left open. -/
theorem ofJson?_toJson_eq_self_iff (v : Variable) :
    ofJson? v.toJson = some v.regular ↔ v.default ≠ some .null ∧
      (∀ x ∈ v.bounds, x.isFinite = true) ∧
      ∀ w ∈ v.values, w.Throughout fun u => u.lookalike? = none ∧ u.mistaken? = none := by
  have parts : v.reread = v.regular ↔
      (v.default.bind fun w => if w.isNull then none else some (.ofJson w.toJson)) =
          v.default.map Value.regular ∧
        v.rules.map Rules.reread = v.rules.map Rules.regular := by
    constructor
    · exact fun same => ⟨congrArg Variable.default same, congrArg Variable.rules same⟩
    · rintro ⟨default, rules⟩
      rw [reread, default, rules, regular]
  simp only [← Value.ofJson_toJson_iff]
  rw [ofJson?_toJson, Option.some_inj, parts, rereadDefault_eq_iff, rereadRules_eq_iff, values,
    List.forall_mem_append, and_assoc]
  exact and_congr_right fun _ => and_left_comm

/-- A definition with everything optional in it, whose values are like those that
are taken for numbers. -/
def ornate : Variable where
  id := "tags"
  name := "Tags"
  type := .array
  lifetime := .temporary
  default := some (.array [.object [("NaN", .null), ("$number", .text "NaN")],
    .number (.of Number.nan)])
  formula := some ""
  rules := some ⟨true, some (-0), none, some 0, some 10, some "\x7b", some [.null,
    .array [.object [("NaN", .bool false)]], .object [("$number", .text "nan")],
    .array [.number (.of (-Number.infinity))]]⟩
  description := some "null"

/-- It comes back as it is. -/
theorem ofJson?_toJson_ornate : ofJson? ornate.toJson = some ornate := by
  refine (ofJson?_toJson_eq_self_iff ornate).mpr ⟨nofun, ?_, ?_⟩ <;> decide +kernel

/-- An array of a record with null under a name comes back as the number of that
name, though nothing looks like a number. -/
theorem ofJson?_toJson_mistaken :
    let v : Variable :=
      { create "tag" "tag" .array with default := some (.array [.object [("NaN", .null)]]) }
    v.default ≠ some .null ∧ v.bounds = [] ∧
      (∀ w ∈ v.values, w.Throughout fun u => u.lookalike? = none) ∧
      ofJson? v.toJson ≠ some v.regular ∧
      (ofJson? v.toJson).map (·.default) = some (some (.number (.of Number.nan))) := by
  intro v
  have taken : v.reread.default = some (.number (.of Number.nan)) := rfl
  refine ⟨nofun, rfl, by decide +kernel, ?_, by rw [ofJson?_toJson, Option.map_some, taken]⟩
  rw [ofJson?_toJson]
  intro same
  rw [Option.some.inj same] at taken
  cases taken

end Variable

end FormulaSheet
