import FormulaSheet.Proofs.JsonValue

/-!
# What decoding makes of any value

Every tree is read as a value, so a value that looks like the tree of a number
comes back as that number: the record of its name under `$number`, or an array
of its name alone.  There is a third form, which is written for nothing.  A name
may be read from a record that has it for its only key, with null under it, and
so an array of one such record is taken for the number too.

* `Value.lookalike?`, `Value.namesake?` — the number that a value looks like,
  and the number that it is taken for without looking like it;
* `Value.taken?_eq` — an array or an object is taken for a number in one of the
  two ways;
* `Value.ofJson_toJson_lookalikes_iff` — exactly when decoding gives the value
  with its lookalikes replaced.
-/

namespace FormulaSheet.Value

/-- The numbers that JSON cannot express, under their names. -/
def namedNumbers : Entries Float :=
  [("NaN", Number.nan), ("Infinity", Number.infinity), ("-Infinity", -Number.infinity)]

/-- The number that a value looks like: the record of its name under `$number`,
or an array of its name alone. -/
def lookalike? : Value → Option Float
  | object [(key, v)] => if key = "$number" then v.asText?.bind namedNumbers.find? else none
  | array [v] => v.asText?.bind namedNumbers.find?
  | _ => none

/-- The only key of a record with null under it. -/
def soleKey? : Value → Option String
  | object [(key, v)] => if v.isNull then some key else none
  | _ => none

/-- The number whose name is the only key of a record, with null under it, that
is alone in an array. -/
def namesake? : Value → Option Float
  | array [v] => v.soleKey?.bind namedNumbers.find?
  | _ => none

/-- If the value is a record of one field `$number`, that field is text. -/
def TagsText : Value → Prop
  | object [(key, v)] => key = "$number" → v.asText?.isSome = true
  | _ => True

instance : DecidablePred TagsText
  | object [(key, v)] =>
    inferInstanceAs (Decidable (key = "$number" → v.asText?.isSome = true))
  | object [] | object (_ :: _ :: _) => isTrue trivial
  | null | bool _ | number _ | text _ | array _ => isTrue trivial

theorem asChoice?_numberToJson (x : Float) : (numberToJson x).asChoice? = none := by
  unfold numberToJson
  split <;> rfl

theorem toJson_eq_null_iff (v : Value) : v.toJson = .null ↔ v.isNull = true := by
  cases v with
  | number x =>
      unfold toJson numberToJson
      split <;> simp [isNull]
  | _ => simp [toJson, isNull]

/-- A name is read from the tree of text, or of a record with it as the only
key. -/
theorem asChoice?_toJson (v : Value) : v.toJson.asChoice? = v.asText?.or v.soleKey? := by
  cases v with
  | null | bool | text => rfl
  | number x => exact asChoice?_numberToJson x.float
  | array vs => rw [toJson_array]; rfl
  | object fs =>
      rw [toJson_object]
      match fs with
      | [] => rfl
      | [(key, v)] =>
          have noText : (object [(key, v)]).asText? = none := rfl
          rw [List.map_singleton, noText, soleKey?, Option.none_or]
          cases null : v.isNull with
          | true => rw [(toJson_eq_null_iff v).mpr null]; rfl
          | false =>
              have value : v.toJson ≠ .null := fun eq => by
                rw [(toJson_eq_null_iff v).mp eq] at null
                cases null
              cases j : v.toJson with
              | null => exact absurd j value
              | _ => rfl
      | (key, v) :: _ :: _ =>
          rw [List.map_cons, List.map_cons]
          cases v.toJson <;> rfl

/-- The names that are read are those of the numbers. -/
theorem ofSpecialName?_eq : ofSpecialName? = fun s => namedNumbers.find? s := by
  funext s
  simp only [ofSpecialName?, namedNumbers, Entries.find?, eq_comm]

/-- An array is taken for a number if it is the array of one name. -/
theorem special?_toJson_array (vs : List Value) :
    special? (array vs).toJson = ((array vs).lookalike?).or (array vs).namesake? := by
  rw [toJson_array]
  match vs with
  | [] | _ :: _ :: _ => rfl
  | [v] =>
      rw [List.map_singleton, special?, asChoice?_toJson, lookalike?, namesake?, ofSpecialName?_eq]
      cases v <;> simp [asText?, soleKey?]

/-- A record whose field `$number` is text if it has no other is taken for a
number if it is a lookalike. -/
theorem special?_toJson_object {fs : List (String × Value)} (h : (object fs).TagsText) :
    special? (object fs).toJson = (object fs).lookalike? := by
  rw [toJson_object]
  match fs with
  | [] | _ :: _ :: _ => rfl
  | [(key, v)] =>
      rw [List.map_singleton, special?, lookalike?, asChoice?_toJson, ofSpecialName?_eq]
      split
      · rename_i tag
        obtain ⟨s, hs⟩ := Option.isSome_iff_exists.mp (h tag)
        rw [hs]
        rfl
      · rfl

/-- An array or an object is taken for a number if it looks like one, or is the
namesake of one. -/
theorem taken?_eq {v : Value} (h : v.TagsText) : v.taken? = v.lookalike?.or v.namesake? := by
  cases v with
  | null | bool | number | text => rfl
  | array vs => exact special?_toJson_array vs
  | object fs => exact (special?_toJson_object h).trans Option.or_none.symm

/-- Nothing in a lookalike is taken for a number. -/
theorem throughout_namesake?_of_lookalike? {v : Value} {x : Float} (h : v.lookalike? = some x) :
    v.Throughout fun w => w.namesake? = none := by
  have text : ∀ {w : Value}, w.asText?.bind namedNumbers.find? = some x →
      w.Throughout fun u => u.namesake? = none := by
    intro w h
    cases w with
    | text s => exact .text rfl
    | _ => cases h
  unfold lookalike? at h
  split at h
  · rename_i key w
    split at h
    · exact .object rfl (List.forall_mem_singleton.mpr (text h))
    · cases h
  · rename_i w
    refine .array ?_ (List.forall_mem_singleton.mpr (text h))
    cases w with
    | text s => rfl
    | _ => cases h
  · cases h

/-- **Decoding gives back a value with its lookalikes replaced** just if nothing
else in it is taken for a number, and the value itself just if there is no
lookalike in it either, as long as every record with `$number` for its only key
has text under it.  What comes back has the one NaN that is read for every
other. -/
theorem ofJson_toJson_lookalikes_iff {v : Value} (h : v.Throughout TagsText) :
    (ofJson v.toJson = v.withNumbers fun w => w.lookalike?.or w.namesake?) ∧
      (ofJson v.toJson = v.withNumbers lookalike? ↔ v.Throughout fun w => w.namesake? = none) ∧
      (ofJson v.toJson = v.regular ↔
        v.Throughout fun w => w.lookalike? = none ∧ w.namesake? = none) := by
  have plain : ∀ {w : Value}, w.IsPlain → w.namesake? = none := by
    intro w hw
    cases w with
    | array | object => exact hw.elim
    | _ => rfl
  have taken : v.Throughout fun w => w.taken? = w.lookalike?.or w.namesake? := h.imp taken?_eq
  have decoded := (ofJson_toJson v).trans (withNumbers_congr taken)
  refine ⟨decoded, ?_, ?_⟩
  · rw [decoded]
    exact withNumbers_or_eq_iff _ _ throughout_namesake?_of_lookalike? plain v
  · rw [ofJson_toJson_eq_regular_iff]
    constructor
    · intro unmistaken
      refine (unmistaken.and taken).imp fun ⟨untaken, eq⟩ => ?_
      exact Option.or_eq_none_iff.mp (eq.symm.trans untaken)
    · intro distinct
      refine (distinct.and taken).imp fun ⟨neither, eq⟩ => ?_
      exact eq.trans (Option.or_eq_none_iff.mpr neither)

/-- Lookalikes at several depths among others that are none, and a NaN that is
not the one that is read. -/
def disguises : Value :=
  .array [.array [.text "NaN"], .array [.object [("$number", .text "-Infinity")]],
    .object [("a", .array [.text "Infinity"]), ("b", .object [("$number", .text "soon")])],
    .object [("$number", .text "NaN"), ("x", .null)], .array [.text "NaN", .text "NaN"],
    .object [("NaN", .null)], .text "NaN", .number (-.of Number.nan)]

/-- The lookalikes come back as numbers, and the rest as it is. -/
theorem ofJson_toJson_disguises : disguises.Throughout TagsText ∧
    (disguises.Throughout fun w => w.namesake? = none) ∧
    ofJson disguises.toJson =
      .array [.number (.of Number.nan), .array [.number (.of (-Number.infinity))],
        .object [("a", .number (.of Number.infinity)), ("b", .object [("$number", .text "soon")])],
        .object [("$number", .text "NaN"), ("x", .null)], .array [.text "NaN", .text "NaN"],
        .object [("NaN", .null)], .text "NaN", .number (.of Number.nan)] := by
  have tags : disguises.Throughout TagsText := by decide +kernel
  have plain : disguises.Throughout fun w => w.namesake? = none := by decide +kernel
  obtain ⟨-, same, -⟩ := ofJson_toJson_lookalikes_iff tags
  have replaced := same.mpr plain
  exact ⟨tags, plain, replaced.trans (by rfl)⟩

/-- An array of a record that has no lookalike in it, and is taken for a number
all the same. -/
theorem ofJson_toJson_namesake :
    let v : Value := .array [.object [("NaN", .null)]]
    v.Throughout TagsText ∧ (v.Throughout fun w => w.lookalike? = none) ∧
      v.withNumbers lookalike? = v ∧ ofJson v.toJson = .number (.of Number.nan) ∧
      ofJson v.toJson ≠ v.withNumbers lookalike? := by
  have taken : ofJson (array [.object [("NaN", .null)]]).toJson = .number (.of Number.nan) := rfl
  refine ⟨by decide +kernel, by decide +kernel, rfl, taken, ?_⟩
  rw [taken]
  exact (nomatch ·)

end FormulaSheet.Value
