import FormulaSheet.Proofs.RoundTrip
import FormulaSheet.Sheet.Snapshot

/-!
# Values are read back from JSON

A value comes back from its tree unless an array or an object in it is taken
for a number that JSON cannot express.  Those numbers come back by name: there
is one infinity of each sign, and every NaN is read as one.

The trees of snapshots go through text by a library of which nothing is known
but that it reads the tree from the text again.

* `Value.specialName?_spec` — numbers are found by their names;
* `Value.Throughout` — something holds of a value and of everything in it;
* `Value.withNumbers` — a value with what stands for numbers replaced;
* `Value.ofJson_toJson` — what decoding makes of any value;
* `Value.ofJson_toJson_eq_regular_iff` — the values that are read from their
  trees, as far as NaNs go by name;
* `Snapshot.ofText?_toText` — the snapshots that come back from their texts.
-/

namespace FormulaSheet

namespace Value

/-- A number with a name is found by it. -/
theorem specialName?_spec {x : Float} {name : String} (h : specialName? x = some name) :
    ofSpecialName? name = some x := by
  have same : ∀ {y : Float}, y ≠ 0 → y ≠ -0 → (x == y) = true → x = y := by
    intro y positive negative equal
    obtain ⟨_, _, same | ⟨_, zero⟩ | ⟨_, zero⟩⟩ := Float.beq_iff_ne_nan_and_eq.mp equal
    · exact same
    · exact absurd zero negative
    · exact absurd zero positive
  unfold specialName? at h
  split at h
  · rename_i nan
    rw [Float.isNaN_eq_decide_eq_nan, decide_eq_true_eq] at nan
    have one : Number.nan = Float.nan := by decide +kernel
    cases h
    rw [nan, ← one]
    rfl
  · split at h
    · rename_i infinite
      cases h
      rw [same (by decide +kernel) (by decide +kernel) infinite]
      rfl
    · split at h
      · rename_i infinite
        cases h
        rw [same (by decide +kernel) (by decide +kernel) infinite]
        rfl
      · cases h

/-- Items are written in their order. -/
theorem itemsToJson_eq (out : List Json) (vs : List Value) :
    itemsToJson out vs = out.reverse ++ vs.map toJson := by
  induction vs generalizing out with
  | nil => simp [itemsToJson]
  | cons v vs ih => simp [itemsToJson, ih]

/-- So are fields. -/
theorem fieldsToJson_eq (out : List (String × Json)) (fs : List (String × Value)) :
    fieldsToJson out fs = out.reverse ++ fs.map fun f => (f.1, f.2.toJson) := by
  induction fs generalizing out with
  | nil => simp [fieldsToJson]
  | cons f fs ih => simp [fieldsToJson, ih]

/-- Items are read in their order. -/
theorem itemsOfJson_eq (out : List Value) (js : List Json) :
    itemsOfJson out js = out.reverse ++ js.map ofJson := by
  induction js generalizing out with
  | nil => simp [itemsOfJson]
  | cons j js ih => simp [itemsOfJson, ih]

/-- So are members. -/
theorem fieldsOfJson_eq (out : List (String × Value)) (ms : List (String × Json)) :
    fieldsOfJson out ms = out.reverse ++ ms.map fun m => (m.1, ofJson m.2) := by
  induction ms generalizing out with
  | nil => simp [fieldsOfJson]
  | cons m ms ih => simp [fieldsOfJson, ih]

/-- The tree of an array. -/
theorem toJson_array (vs : List Value) : (array vs).toJson = .array (vs.map toJson) := by
  rw [toJson, itemsToJson_eq, List.reverse_nil, List.nil_append]

/-- The tree of an object. -/
theorem toJson_object (fs : List (String × Value)) :
    (object fs).toJson = .object (fs.map fun f => (f.1, f.2.toJson)) := by
  rw [toJson, fieldsToJson_eq, List.reverse_nil, List.nil_append]

/-- An array that is taken for no number is read item by item. -/
theorem ofJson_array {js : List Json} (h : special? (.array js) = none) :
    ofJson (.array js) = .array (js.map ofJson) := by
  rw [ofJson, h]
  dsimp only
  rw [itemsOfJson_eq, List.reverse_nil, List.nil_append]

/-- An object that is taken for no number is read field by field. -/
theorem ofJson_object {ms : List (String × Json)} (h : special? (.object ms) = none) :
    ofJson (.object ms) = .object (ms.map fun m => (m.1, ofJson m.2)) := by
  rw [ofJson, h]
  dsimp only
  rw [fieldsOfJson_eq, List.reverse_nil, List.nil_append]

/-- A number is read from its tree. -/
theorem ofJson_numberToJson (x : Float) : ofJson (numberToJson x) = .number (.of x) := by
  cases named : specialName? x with
  | none => simp only [numberToJson, named, ofJson]
  | some name =>
      have found : special? (.object [("$number", .text name)]) = some x := specialName?_spec named
      simp only [numberToJson, named, ofJson, found]

/-- What holds of an array if it holds of its items, of an object if it holds of
its fields, and of everything else holds of all values. -/
@[elab_as_elim]
theorem inductionOn {P : Value → Prop} (v : Value) (null : P .null) (bool : ∀ b, P (.bool b))
    (number : ∀ x, P (.number x)) (text : ∀ s, P (.text s))
    (array : ∀ vs, (∀ v ∈ vs, P v) → P (.array vs))
    (object : ∀ fs, (∀ f ∈ fs, P f.2) → P (.object fs)) : P v :=
  Value.rec (motive_1 := P) (motive_2 := fun vs => ∀ v ∈ vs, P v)
    (motive_3 := fun fs => ∀ f ∈ fs, P f.2) (motive_4 := fun f => P f.2)
    null bool number text array object (List.forall_mem_nil _)
    (fun _ _ here more => List.forall_mem_cons.mpr ⟨here, more⟩) (List.forall_mem_nil _)
    (fun _ _ here more => List.forall_mem_cons.mpr ⟨here, more⟩) (fun _ _ here => here) v

section Throughout

variable {P : Value → Prop}

/-- Something holds of a value and of everything in it. -/
inductive Throughout (P : Value → Prop) : Value → Prop
  | null : P .null → Throughout P .null
  | bool {b : Bool} : P (.bool b) → Throughout P (.bool b)
  | number {x : Double} : P (.number x) → Throughout P (.number x)
  | text {s : String} : P (.text s) → Throughout P (.text s)
  | array {vs : List Value} : P (.array vs) → (∀ v ∈ vs, Throughout P v) →
      Throughout P (.array vs)
  | object {fs : List (String × Value)} : P (.object fs) → (∀ f ∈ fs, Throughout P f.2) →
      Throughout P (.object fs)

/-- What holds throughout a value holds of the value. -/
theorem Throughout.here {v : Value} (h : v.Throughout P) : P v := by
  cases h <;> assumption

/-- It holds throughout an array if it does throughout the items. -/
theorem throughout_array_iff {vs : List Value} :
    (array vs).Throughout P ↔ P (.array vs) ∧ ∀ v ∈ vs, v.Throughout P :=
  ⟨fun | .array here h => ⟨here, h⟩, fun h => .array h.1 h.2⟩

/-- So it is for the fields of an object. -/
theorem throughout_object_iff {fs : List (String × Value)} :
    (object fs).Throughout P ↔ P (.object fs) ∧ ∀ f ∈ fs, f.2.Throughout P :=
  ⟨fun | .object here h => ⟨here, h⟩, fun h => .object h.1 h.2⟩

/-- What follows everywhere holds throughout. -/
theorem Throughout.imp {Q : Value → Prop} (step : ∀ {v : Value}, P v → Q v) {v : Value}
    (h : v.Throughout P) : v.Throughout Q := by
  induction h with
  | null here => exact .null (step here)
  | bool here => exact .bool (step here)
  | number here => exact .number (step here)
  | text here => exact .text (step here)
  | array here _ ih => exact .array (step here) ih
  | object here _ ih => exact .object (step here) ih

/-- Two properties that hold throughout hold together. -/
theorem Throughout.and {Q : Value → Prop} {v : Value} (hp : v.Throughout P)
    (hq : v.Throughout Q) : v.Throughout fun w => P w ∧ Q w := by
  induction hp with
  | null here => exact .null ⟨here, hq.here⟩
  | bool here => exact .bool ⟨here, hq.here⟩
  | number here => exact .number ⟨here, hq.here⟩
  | text here => exact .text ⟨here, hq.here⟩
  | array here _ ih =>
      exact .array ⟨here, hq.here⟩ fun v hv => ih v hv ((throughout_array_iff.mp hq).2 v hv)
  | object here _ ih =>
      exact .object ⟨here, hq.here⟩ fun f hf => ih f hf ((throughout_object_iff.mp hq).2 f hf)

variable [DecidablePred P]

mutual

/-- Decides whether something holds throughout a value. -/
def decideThroughout : (v : Value) → Decidable (v.Throughout P)
  | null => decidable_of_iff (P .null) ⟨.null, Throughout.here⟩
  | bool b => decidable_of_iff (P (.bool b)) ⟨.bool, Throughout.here⟩
  | number x => decidable_of_iff (P (.number x)) ⟨.number, Throughout.here⟩
  | text s => decidable_of_iff (P (.text s)) ⟨.text, Throughout.here⟩
  | array vs =>
    have := decideItems vs
    decidable_of_iff _ throughout_array_iff.symm
  | object fs =>
    have := decideFields fs
    decidable_of_iff _ throughout_object_iff.symm

/-- Decides whether it holds throughout items. -/
def decideItems : (vs : List Value) → Decidable (∀ v ∈ vs, v.Throughout P)
  | [] => isTrue (List.forall_mem_nil _)
  | v :: vs =>
    have := decideThroughout v
    have := decideItems vs
    decidable_of_iff (v.Throughout P ∧ ∀ w ∈ vs, w.Throughout P) List.forall_mem_cons.symm

/-- Decides whether it holds throughout fields. -/
def decideFields : (fs : List (String × Value)) → Decidable (∀ f ∈ fs, f.2.Throughout P)
  | [] => isTrue (List.forall_mem_nil _)
  | (k, v) :: fs =>
    have := decideThroughout v
    have := decideFields fs
    decidable_of_iff (v.Throughout P ∧ ∀ f ∈ fs, f.2.Throughout P)
      (List.forall_mem_cons (p := fun f : String × Value => f.2.Throughout P) (a := (k, v))).symm

end

instance (v : Value) : Decidable (v.Throughout P) := decideThroughout v

end Throughout

section Replacement

variable (number? : Value → Option Float)

mutual

/-- A value with every array and object that stands for a number replaced by
that number, at every depth, and every NaN by the one that is read. -/
def withNumbers : Value → Value
  | array vs =>
    match number? (array vs) with
    | some x => number (.of x)
    | none => array (itemsWithNumbers vs)
  | object fs =>
    match number? (object fs) with
    | some x => number (.of x)
    | none => object (fieldsWithNumbers fs)
  | number x => number x.regular
  | v => v

/-- Items with what stands for numbers replaced. -/
def itemsWithNumbers : List Value → List Value
  | [] => []
  | v :: vs => withNumbers v :: itemsWithNumbers vs

/-- Fields with what stands for numbers replaced. -/
def fieldsWithNumbers : List (String × Value) → List (String × Value)
  | [] => []
  | (k, v) :: fs => (k, withNumbers v) :: fieldsWithNumbers fs

end

/-- Numbers are put in item by item. -/
theorem itemsWithNumbers_eq_map (vs : List Value) :
    itemsWithNumbers number? vs = vs.map (withNumbers number?) := by
  induction vs with
  | nil => rfl
  | cons v vs ih => rw [itemsWithNumbers, ih, List.map_cons]

/-- They are put in field by field. -/
theorem fieldsWithNumbers_eq_map (fs : List (String × Value)) :
    fieldsWithNumbers number? fs = fs.map fun f => (f.1, withNumbers number? f.2) := by
  induction fs with
  | nil => rfl
  | cons f fs ih => rw [fieldsWithNumbers, ih, List.map_cons]

variable {number?}

/-- An array that is taken for a number becomes it. -/
theorem withNumbers_of_array {vs : List Value} {x : Float} (h : number? (array vs) = some x) :
    (array vs).withNumbers number? = .number (.of x) := by
  rw [withNumbers, h]

/-- So does an object. -/
theorem withNumbers_of_object {fs : List (String × Value)} {x : Float}
    (h : number? (object fs) = some x) : (object fs).withNumbers number? = .number (.of x) := by
  rw [withNumbers, h]

/-- In any other array the items are replaced. -/
theorem withNumbers_array {vs : List Value} (h : number? (array vs) = none) :
    (array vs).withNumbers number? = .array (vs.map (withNumbers number?)) := by
  rw [withNumbers, h]
  dsimp only
  rw [itemsWithNumbers_eq_map]

/-- In any other object the values of the fields are. -/
theorem withNumbers_object {fs : List (String × Value)} (h : number? (object fs) = none) :
    (object fs).withNumbers number? =
      .object (fs.map fun f => (f.1, withNumbers number? f.2)) := by
  rw [withNumbers, h]
  dsimp only
  rw [fieldsWithNumbers_eq_map]

/-- Only what the arrays and objects in a value stand for matters. -/
theorem withNumbers_congr {other? : Value → Option Float} {v : Value}
    (same : v.Throughout fun w => number? w = other? w) :
    v.withNumbers number? = v.withNumbers other? := by
  induction same with
  | null | bool | number | text => rfl
  | @array vs here _ ih =>
      cases stands : number? (array vs) with
      | some x => rw [withNumbers_of_array stands, withNumbers_of_array (here ▸ stands)]
      | none =>
          rw [withNumbers_array stands, withNumbers_array (here ▸ stands), List.map_congr_left ih]
  | @object fs here _ ih =>
      cases stands : number? (object fs) with
      | some x => rw [withNumbers_of_object stands, withNumbers_of_object (here ▸ stands)]
      | none =>
          rw [withNumbers_object stands, withNumbers_object (here ▸ stands)]
          exact congrArg object (List.map_congr_left fun f hf => by rw [ih f hf])

/-- Whether a value is neither an array nor an object. -/
def IsPlain : Value → Prop
  | array _ | object _ => False
  | _ => True

/-- It makes no difference that more is replaced just where there is no more to
replace, if nothing more stands in what is replaced anyway. -/
theorem withNumbers_or_eq_iff (first more : Value → Option Float)
    (inner : ∀ {v x}, first v = some x → v.Throughout fun w => more w = none)
    (plain : ∀ {v}, v.IsPlain → more v = none) (v : Value) :
    v.withNumbers (fun w => (first w).or (more w)) = v.withNumbers first ↔
      v.Throughout fun w => more w = none := by
  induction v using inductionOn with
  | null => exact ⟨fun _ => .null (plain trivial), fun _ => rfl⟩
  | bool b => exact ⟨fun _ => .bool (plain trivial), fun _ => rfl⟩
  | number x => exact ⟨fun _ => .number (plain trivial), fun _ => rfl⟩
  | text s => exact ⟨fun _ => .text (plain trivial), fun _ => rfl⟩
  | array vs ih =>
      cases here : first (array vs) with
      | some x =>
          rw [withNumbers_of_array here, withNumbers_of_array (x := x) (by rw [here]; rfl)]
          exact ⟨fun _ => inner here, fun _ => rfl⟩
      | none =>
          rw [withNumbers_array here, throughout_array_iff]
          cases there : more (array vs) with
          | some x =>
              rw [withNumbers_of_array (x := x) (by rw [here, there]; rfl)]
              exact ⟨(nomatch ·), fun h => nomatch h.1⟩
          | none =>
              rw [withNumbers_array (by rw [here, there]; rfl), Value.array.injEq,
                List.map_inj_left]
              exact ⟨fun h => ⟨rfl, fun v hv => (ih v hv).mp (h v hv)⟩,
                fun h v hv => (ih v hv).mpr (h.2 v hv)⟩
  | object fs ih =>
      cases here : first (object fs) with
      | some x =>
          rw [withNumbers_of_object here, withNumbers_of_object (x := x) (by rw [here]; rfl)]
          exact ⟨fun _ => inner here, fun _ => rfl⟩
      | none =>
          rw [withNumbers_object here, throughout_object_iff]
          cases there : more (object fs) with
          | some x =>
              rw [withNumbers_of_object (x := x) (by rw [here, there]; rfl)]
              exact ⟨(nomatch ·), fun h => nomatch h.1⟩
          | none =>
              rw [withNumbers_object (by rw [here, there]; rfl), Value.object.injEq,
                List.map_inj_left]
              exact ⟨fun h => ⟨rfl, fun f hf => (ih f hf).mp (congrArg Prod.snd (h f hf))⟩,
                fun h f hf => by rw [(ih f hf).mpr (h.2 f hf)]⟩

end Replacement

/-- A value as it is read if nothing in it is taken for a number: every NaN in it
is the one that is read. -/
def regular (v : Value) : Value := v.withNumbers fun _ => none

/-- Where every NaN is the one that is read, nothing changes. -/
theorem regular_eq_self {v : Value} (h : ∀ x ∈ v.numbers, x.Regular) : v.regular = v := by
  unfold regular
  induction v using inductionOn with
  | null | bool | text => rfl
  | number x => exact congrArg number (h x List.mem_cons_self)
  | array vs ih =>
      rw [withNumbers_array rfl]
      have same : ∀ v ∈ vs, v.withNumbers (fun _ => none) = v := fun v hv =>
        ih v hv fun x hx => h x (mem_itemNumbers.mpr ⟨v, hv, hx⟩)
      exact congrArg array ((List.map_congr_left same).trans (List.map_id vs))
  | object fs ih =>
      rw [withNumbers_object rfl]
      have same : ∀ f ∈ fs, (f.1, f.2.withNumbers fun _ => none) = f := fun f hf => by
        rw [ih f hf fun x hx => h x (mem_fieldNumbers.mpr ⟨f, hf, hx⟩)]
      exact congrArg object ((List.map_congr_left same).trans (List.map_id fs))

/-- The number that an array or an object is taken for when its tree is read. -/
def taken? : Value → Option Float
  | array vs => special? (array vs).toJson
  | object fs => special? (object fs).toJson
  | _ => none

/-- No array and no object in a value is taken for a number when its tree is
read. -/
def Unmistaken (v : Value) : Prop := v.Throughout fun w => w.taken? = none

instance (v : Value) : Decidable v.Unmistaken :=
  inferInstanceAs (Decidable (v.Throughout fun w => w.taken? = none))

/-- **What decoding makes of a value** is the value with everything in it that is
taken for a number replaced. -/
theorem ofJson_toJson (v : Value) : ofJson v.toJson = v.withNumbers taken? := by
  induction v using inductionOn with
  | null | bool | text => rfl
  | number x => exact ofJson_numberToJson x.float
  | array vs ih =>
      cases taken : (array vs).taken? with
      | some x =>
          rw [withNumbers_of_array taken]
          rw [taken?, toJson_array] at taken
          rw [toJson_array, ofJson, taken]
      | none =>
          rw [withNumbers_array taken]
          rw [taken?, toJson_array] at taken
          rw [toJson_array, ofJson_array taken, List.map_map]
          exact congrArg array (List.map_congr_left ih)
  | object fs ih =>
      cases taken : (object fs).taken? with
      | some x =>
          rw [withNumbers_of_object taken]
          rw [taken?, toJson_object] at taken
          rw [toJson_object, ofJson, taken]
      | none =>
          rw [withNumbers_object taken]
          rw [taken?, toJson_object] at taken
          rw [toJson_object, ofJson_object taken, List.map_map]
          refine congrArg object (List.map_congr_left fun f hf => ?_)
          rw [Function.comp_apply, ih f hf]

/-- A plain value is taken for no number. -/
theorem taken?_of_isPlain {v : Value} (h : v.IsPlain) : v.taken? = none := by
  cases v with
  | array | object => exact h.elim
  | _ => rfl

/-- **A value is read from its tree**, but for NaNs that are no longer told apart,
just if nothing in it is taken for a number. -/
theorem ofJson_toJson_eq_regular_iff {v : Value} :
    ofJson v.toJson = v.regular ↔ v.Unmistaken := by
  have all := withNumbers_or_eq_iff (fun _ => none) taken? (fun h => nomatch h)
    taken?_of_isPlain v
  simp only [Option.none_or] at all
  rw [ofJson_toJson, regular]
  exact all

/-- Every object is read as a table. -/
theorem tableOfJson?_object (ms : List (String × Json)) :
    tableOfJson? (.object ms) = some (.ofList (ms.map fun m => (m.1, ofJson m.2))) := by
  have members : ms.mapM (fun m => (some (ofJson m.2)).map fun v => (m.1, v)) =
      some (ms.map fun m => (m.1, ofJson m.2)) := List.mapM_pure
  rw [tableOfJson?, Json.table?, Json.asObject?, Option.bind_some, members]
  rfl

end Value

/-- What a library makes of one tree whose text is known. -/
def JsonText.knowing (j : Json) (text : String) : JsonText where
  write _ := text
  read? other := if other = text then some j else none

/-- A text that knows its tree keeps it. -/
theorem JsonText.keeps_knowing (j : Json) (text : String) : (knowing j text).Keeps j := if_pos rfl

namespace Snapshot

variable {p : Snapshot}

/-- A snapshot is read from its tree if all of its values are. -/
theorem ofJson?_toJson_iff :
    ofJson? p.toJson = some p ↔ ∀ e ∈ p.values.entries, Value.ofJson e.2.toJson = e.2 := by
  have asc : Entries.Ascending (p.values.entries.map fun e => (e.1, Value.ofJson e.2.toJson)) :=
    List.pairwise_map.mpr p.values.ascending
  have read : ofJson? p.toJson = some ⟨⟨_, asc⟩⟩ := by
    rw [ofJson?, toJson, Value.tableToJson, Value.tableOfJson?_object, List.map_map]
    simp only [Table.ofList, Function.comp_def, Entries.ofList_eq_self asc, Option.map_some]
  rw [read]
  constructor
  · intro same e he
    have entries := congrArg (fun q : Snapshot => q.values.entries) (Option.some.inj same)
    have eq := List.map_eq_map_iff.mp (entries.trans (List.map_id _).symm) e he
    exact congrArg Prod.snd eq
  · intro same
    obtain ⟨⟨es, _⟩⟩ := p
    have eq : ∀ e ∈ es, (e.1, Value.ofJson e.2.toJson) = e := fun e he => by rw [same e he]
    simp only [List.map_congr_left eq, List.map_id']

/-- Snapshots of values that decoding does not change: nothing in them is taken
for a number, and their NaNs are the one that is read. -/
structure Plain (p : Snapshot) : Prop where
  unmistaken : ∀ e ∈ p.values.entries, e.2.Unmistaken
  regular : ∀ e ∈ p.values.entries, ∀ x ∈ e.2.numbers, x.Regular

instance (p : Snapshot) : Decidable p.Plain :=
  decidable_of_iff _ ⟨fun h => ⟨h.1, h.2⟩, fun h => And.intro h.unmistaken h.regular⟩

/-- **A plain snapshot comes back from its text**, if the text is read as the
tree that it was written for. -/
theorem Plain.ofText?_toText (h : p.Plain) {t : JsonText} (kept : t.Keeps p.toJson) :
    ofText? t (p.toText t) = some p := by
  rw [ofText?, toText, kept, Option.bind_some, ofJson?_toJson_iff]
  intro e he
  rw [Value.ofJson_toJson_eq_regular_iff.mpr (h.unmistaken e he),
    Value.regular_eq_self (h.regular e he)]

end Snapshot

end FormulaSheet
