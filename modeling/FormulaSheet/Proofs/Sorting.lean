import FormulaSheet.Builtin.Answer
import FormulaSheet.Host
import FormulaSheet.Proofs.NumberOrder

/-!
# Sorting

Values compare by the group they are in, and within a group as numbers, in the
total order of their bits, or as texts; all others compare equal.  This is a
total preorder, so there is one list that has the values in order and keeps
those that compare equal as they were, and `SORT` answers with it.

* `Sequences.order_eq_compareLex` — the comparison as three, one after another;
* `Sequences.Ascending.reads` — what it is for values to be in order;
* `Sequences.stablySorted_iff` — there is one way to sort values stably;
* `PlainBuiltin.sort_stable` — `SORT` does it, ascending and descending.
-/

namespace FormulaSheet

namespace Sequences

section Order

/-- The place of a number; that of anything else does not matter. -/
def numberKey : Value → Int
  | .number x => x.place
  | _ => 0

/-- A text; that of anything else does not matter. -/
def textKey : Value → String
  | .text s => s
  | _ => ""

/-- Values compare by their group first, and then by what tells those of one
group apart. -/
theorem order_eq_compareLex :
    order = compareLex (compareOn rank) (compareLex (compareOn numberKey) (compareOn textKey)) := by
  funext v w
  cases v <;> cases w <;> simp [order, compareLex, compareOn, rank, numberKey, textKey] <;> rfl

instance : Std.TransCmp order := by
  rw [order_eq_compareLex]
  infer_instance

/-- A comparison that puts all values in one order, up to those that compare
equal. -/
structure TotalPreorder (compare : Value → Value → Ordering) : Prop where
  reflexive : ∀ v, compare v v = .eq
  turned : ∀ v w, compare w v = (compare v w).swap
  total : ∀ v w, (compare v w).isLE || (compare w v).isLE
  transitive : ∀ u v w, (compare u v).isLE → (compare v w).isLE → (compare u w).isLE

/-- The order of values is a total preorder. -/
theorem totalPreorder_order : TotalPreorder order where
  reflexive _ := Std.ReflCmp.compare_self
  turned _ _ := Std.OrientedCmp.eq_swap
  total v w := by
    have turned : order w v = (order v w).swap := Std.OrientedCmp.eq_swap
    rw [turned]
    cases order v w <;> rfl
  transitive _ _ _ := Std.TransCmp.isLE_trans

end Order

section Stability

variable {v w : Value} {vs ws : List Value}

/-- The values are in order. -/
def Ascending (vs : List Value) : Prop := vs.Pairwise fun v w => (order v w).isLE

instance (vs : List Value) : Decidable (Ascending vs) :=
  inferInstanceAs (Decidable (vs.Pairwise _))

/-- Whether two values compare equal. -/
def alike (v w : Value) : Bool := order v w == .eq

/-- Values are alike if the order has neither first. -/
theorem alike_iff : alike v w = true ↔ order v w = .eq := beq_iff_eq

/-- Every value is like itself. -/
theorem alike_self (v : Value) : alike v v = true :=
  alike_iff.mpr (totalPreorder_order.reflexive v)

/-- `ws` are the values `vs` in order, and those that compare equal are in the
order in which they are among `vs`. -/
structure StablySorted (vs ws : List Value) : Prop where
  perm : ws.Perm vs
  ascending : Ascending ws
  stable : ∀ v, ws.filter (alike v) = vs.filter (alike v)

/-- In order are numbers before texts before all else, numbers by their places,
so without a lesser one after a greater, and texts by their characters. -/
theorem Ascending.reads (h : Ascending vs) :
    vs.Pairwise fun v w => rank v ≤ rank w ∧
      (∀ x y, v = .number x → w = .number y → x.place ≤ y.place ∧ ¬ y.float < x.float) ∧
      ∀ s t, v = .text s → w = .text t → ¬ t < s := by
  refine h.imp fun {v w} le => ⟨?_, ?_, ?_⟩
  · rw [order_eq_compareLex, compareLex, Ordering.isLE_then_iff_and] at le
    exact Nat.isLE_compare.mp le.1
  · rintro x y rfl rfl
    have placed : x.place ≤ y.place := Std.isLE_compare.mp le
    refine ⟨placed, fun less => ?_⟩
    obtain ⟨hy, hx⟩ := Number.isNaN_eq_false_of_lt less
    have lower := Number.place_lt_of_lt less
    rw [Double.of_float hx, Double.of_float hy] at lower
    exact Int.not_le.mpr lower placed
  · rintro s t rfl rfl less
    have lower : order (.text s) (.text t) = .gt := compare_gt_iff_gt.mpr less
    rw [lower] at le
    cases le

/-- Values that compare equal to one are in order as they are. -/
theorem ascending_filter_alike (v : Value) (vs : List Value) : Ascending (vs.filter (alike v)) := by
  refine List.pairwise_of_forall_mem_list fun u hu w hw => ?_
  have hu := alike_iff.mp (List.mem_filter.mp hu).2
  have hw := alike_iff.mp (List.mem_filter.mp hw).2
  rw [← Std.TransCmp.congr_left hu, hw]
  rfl

/-- What is sorted is in order, and values that are alike stay as they were. -/
theorem stablySorted_sort (vs : List Value) : StablySorted vs (sort vs) := by
  have trans := totalPreorder_order.transitive
  have total := totalPreorder_order.total
  have perm := List.mergeSort_perm vs fun v w => (order v w).isLE
  rw [sort, sortBy_eq_mergeSort]
  refine ⟨perm, List.pairwise_mergeSort trans total vs, fun v => ?_⟩
  -- those alike are in order, so they stay a sublist, and none of them is lost
  have kept := (List.sublist_mergeSort trans total (ascending_filter_alike v vs)
    List.filter_sublist).filter (alike v)
  rw [List.filter_filter] at kept
  simp only [Bool.and_self] at kept
  exact (kept.eq_of_length (perm.filter (alike v)).length_eq.symm).symm

/-- The first of values in order comes before every one of them. -/
theorem Ascending.isLE_head (h : Ascending (v :: vs)) (hw : w ∈ v :: vs) : (order v w).isLE := by
  rcases List.mem_cons.mp hw with rfl | hw
  · rw [totalPreorder_order.reflexive]
    rfl
  · exact (List.pairwise_cons.mp h).1 w hw

/-- A value is among those that compare equal to it. -/
theorem mem_iff_of_filter_eq (same : ∀ v, vs.filter (alike v) = ws.filter (alike v)) (v : Value) :
    v ∈ vs ↔ v ∈ ws := by
  have among : ∀ us : List Value, v ∈ us ↔ v ∈ us.filter (alike v) := by simp [alike_self]
  rw [among, same, ← among]

/-- Values in order are determined by those that compare equal to each. -/
theorem Ascending.eq_of_filter_eq (hvs : Ascending vs) (hws : Ascending ws)
    (same : ∀ v, vs.filter (alike v) = ws.filter (alike v)) : vs = ws := by
  have mem := mem_iff_of_filter_eq same
  induction vs generalizing ws with
  | nil =>
      cases ws with
      | nil => rfl
      | cons w ws => exact absurd ((mem w).mpr List.mem_cons_self) List.not_mem_nil
  | cons v vs ih =>
      cases ws with
      | nil => exact absurd ((mem v).mp List.mem_cons_self) List.not_mem_nil
      | cons w ws =>
          have below := hvs.isLE_head ((mem w).mpr List.mem_cons_self)
          have above := hws.isLE_head ((mem v).mp List.mem_cons_self)
          have equal := alike_iff.mpr (Std.OrientedCmp.isLE_antisymm below above)
          have first := same v
          rw [List.filter_cons_of_pos (alike_self v), List.filter_cons_of_pos equal] at first
          obtain rfl : v = w := (List.cons.inj first).1
          have rest : ∀ u, vs.filter (alike u) = ws.filter (alike u) := by
            intro u
            have here := same u
            rw [List.filter_cons, List.filter_cons] at here
            split at here
            · exact (List.cons.inj here).2
            · exact here
          rw [ih (List.pairwise_cons.mp hvs).2 (List.pairwise_cons.mp hws).2 rest
            (mem_iff_of_filter_eq rest)]

/-- **There is one way to sort values stably.** -/
theorem stablySorted_iff : StablySorted vs ws ↔ ws = sort vs := by
  have sorted := stablySorted_sort vs
  constructor
  · intro h
    exact h.ascending.eq_of_filter_eq sorted.ascending fun v => by rw [h.stable, sorted.stable]
  · rintro rfl
    exact sorted

/-- Sorting leaves values that are in order as they are. -/
theorem Ascending.sort_eq (h : Ascending vs) : sort vs = vs :=
  (stablySorted_iff.mp ⟨.refl vs, h, fun _ => rfl⟩).symm

end Stability

end Sequences

namespace PlainBuiltin

open Sequences

/-- The arguments after the array ask for descending order: the first of them is
the word for it, in letters of any case. -/
def AsksDescending (args : List Value) : Prop :=
  ∃ d, args.head? = some (.text d) ∧ d.toLower = "desc"

/-- The word for descending, in any case. -/
theorem capitals_eq_desc_iff (d : String) : capitals d = "DESC" ↔ d.toLower = "desc" := by
  have upper : capitals d = "DESC" ↔ d.toList.map Char.toUpper = "DESC".toList := by
    rw [capitals, ← String.toList_inj, String.toList_ofList]
  have lower : d.toLower = "desc" ↔ d.toList.map Char.toLower = "desc".toList := by
    rw [← String.toList_inj]
    simp [String.toLower]
  have down : Char.toLower ∘ Char.toUpper = Char.toLower := funext Char.toLower_toUpper_eq_toLower
  have up : Char.toUpper ∘ Char.toLower = Char.toUpper := funext Char.toUpper_toLower_eq_toUpper
  rw [upper, lower]
  constructor <;> intro h
  · rw [← down, ← List.map_map, h]
    rfl
  · rw [← up, ← List.map_map, h]
    rfl

/-- The second argument asks for it just if it is that word. -/
theorem isDescending_iff (v : Value) (args : List Value) :
    isDescending (Arguments.value (v :: args) 1) = true ↔ AsksDescending args := by
  cases args with
  | nil => simp [Arguments.value, isDescending, AsksDescending]
  | cons w args =>
      cases w <;> simp [Arguments.value, isDescending, AsksDescending, capitals_eq_desc_iff]

/-- The answer is the sorted array, or the reverse of it. -/
theorem answer_sort (nan : NanChoice) (vs args : List Value) :
    (¬ AsksDescending args →
      sort.answer nan (.array vs :: args) = .ok (.array (Sequences.sort vs))) ∧
    (AsksDescending args →
      sort.answer nan (.array vs :: args) = .ok (.array (Sequences.sort vs).reverse)) := by
  have answered : sort.answer nan (.array vs :: args) = .ok (.array
      (if isDescending (Arguments.value (.array vs :: args) 1) then (Sequences.sort vs).reverse
       else Sequences.sort vs)) := rfl
  rw [answered]
  constructor <;> intro h
  · rw [if_neg (mt (isDescending_iff _ _).mp h)]
  · rw [if_pos ((isDescending_iff _ _).mpr h)]

/-- **Sorting is stable, by a total preorder.**  The answer to an array is the one
rearrangement of it that is in order and keeps what compares equal as it was, and
exactly the reverse of that where descending order is asked for, whatever the
case of the letters; an array in order is answered as it is. -/
theorem sort_stable (nan : NanChoice) :
    TotalPreorder order ∧ ∀ vs, ∃ ws, StablySorted vs ws ∧
    (∀ us, StablySorted vs us → us = ws) ∧ (Ascending vs → ws = vs) ∧
    ∀ args, (¬ AsksDescending args → sort.answer nan (.array vs :: args) = .ok (.array ws) ∧
        sort.answer nan (.array ws :: args) = .ok (.array ws)) ∧
      (AsksDescending args → sort.answer nan (.array vs :: args) = .ok (.array ws.reverse)) := by
  refine ⟨totalPreorder_order, fun vs => ?_⟩
  have sorted := stablySorted_sort vs
  refine ⟨Sequences.sort vs, sorted, fun _ => stablySorted_iff.mp, Ascending.sort_eq,
    fun args => ⟨fun ascending => ⟨(answer_sort nan vs args).1 ascending, ?_⟩,
      (answer_sort nan vs args).2⟩⟩
  rw [(answer_sort nan _ args).1 ascending, sorted.ascending.sort_eq]

/-- A little of everything, out of order. -/
def mixture : List Value :=
  [.bool true, .number (.of Number.nan), .number 0, .text "b", .null, .number (-0),
    .number (-.of Number.nan)]

/-- The mixture in order, a NaN at either end of its numbers. -/
theorem sort_mixture : Sequences.sort mixture =
    [.number (-.of Number.nan), .number (-0), .number 0, .number (.of Number.nan), .text "b",
      .bool true, .null] := by
  rfl

/-- The zeros are told apart and the NaNs too, and the truth value stays before
null. -/
theorem sort_stable_mixture :
    let ws : List Value := [.number (-.of Number.nan), .number (-0), .number 0,
      .number (.of Number.nan), .text "b", .bool true, .null]
    let nan := Host.still.nan
    StablySorted mixture ws ∧ Ascending ws ∧
      sort.answer nan [.array mixture, .text "down"] = .ok (.array ws) ∧
      sort.answer nan [.array ws, .text "down"] = .ok (.array ws) ∧
      sort.answer nan [.array mixture, .text "dEsC"] = .ok (.array ws.reverse) := by
  have down : ¬ AsksDescending [.text "down"] := by
    rintro ⟨_, ⟨⟩, word⟩
    exact absurd ((capitals_eq_desc_iff _).mpr word) (by decide)
  have desc : AsksDescending [.text "dEsC"] := ⟨_, rfl, (capitals_eq_desc_iff _).mp (by decide)⟩
  obtain ⟨ws, sorted, _, _, answers⟩ := (sort_stable Host.still.nan).2 mixture
  obtain rfl : ws = _ := (stablySorted_iff.mp sorted).trans sort_mixture
  exact ⟨sorted, sorted.ascending, ((answers _).1 down).1, ((answers _).1 down).2,
    (answers _).2 desc⟩

end PlainBuiltin

end FormulaSheet
