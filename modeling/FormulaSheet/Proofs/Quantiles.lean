import FormulaSheet.Builtin.Answer
import FormulaSheet.Host
import FormulaSheet.Proofs.NumberOrder

/-!
# Medians and percentiles

Medians and percentiles put the numbers in order first.  No two numbers have one
place, so there is one way to do that, whatever the order in which they come; and
with it everything that is computed from the numbers in order is the same, to the
last bit.

* `Statistics.sorted_eq_iff` — there is one way to put numbers in order;
* `Statistics.median_eq_of_perm`, `Statistics.percentile_eq_of_perm` — figures
  that do not depend on the order of the numbers;
* `PlainBuiltin.quantiles_of_perm` — `MEDIAN` and `PERCENTILE` answer the same to
  an array and to a permutation of it.
-/

namespace FormulaSheet

namespace Statistics

open Number

section Order

variable {xs ys : List Float}

/-- The numbers are in their total order. -/
def Ascending (xs : List Float) : Prop :=
  xs.Pairwise fun x y => (Double.of x).place ≤ (Double.of y).place

instance (xs : List Float) : Decidable (Ascending xs) :=
  inferInstanceAs (Decidable (xs.Pairwise _))

/-- Sorting only moves numbers. -/
theorem perm_sorted (xs : List Float) : (sorted xs).Perm xs := by
  rw [sorted, sortBy_eq_mergeSort]
  exact List.mergeSort_perm ..

/-- They ascend then. -/
theorem ascending_sorted (xs : List Float) : Ascending (sorted xs) := by
  have inOrder : (sorted xs).Pairwise fun x y =>
      decide ((Double.of x).place ≤ (Double.of y).place) = true := by
    rw [sorted, sortBy_eq_mergeSort]
    refine List.pairwise_mergeSort (fun x y z le le' => ?_) (fun x y => ?_) xs
    · simpa using (of_decide_eq_true le).trans (of_decide_eq_true le')
    · simpa using Int.le_total (Double.of x).place (Double.of y).place
  exact inOrder.imp of_decide_eq_true

/-- Numbers that tie are the same, so numbers in order are determined by which
they are and how often each of them occurs. -/
theorem Ascending.eq_of_perm (hxs : Ascending xs) (hys : Ascending ys) (h : xs.Perm ys) :
    xs = ys :=
  have tie : ∀ {x y : Float}, (Double.of x).place = (Double.of y).place → x = y :=
    fun h => Double.of_injective (Double.place_injective h)
  h.eq_of_pairwise (fun _ _ _ _ le ge => tie (Int.le_antisymm le ge)) hxs hys

/-- **There is one way to put numbers in order.** -/
theorem sorted_eq_iff : sorted xs = ys ↔ ys.Perm xs ∧ Ascending ys := by
  constructor
  · rintro rfl
    exact ⟨perm_sorted xs, ascending_sorted xs⟩
  · rintro ⟨perm, inOrder⟩
    exact (ascending_sorted xs).eq_of_perm inOrder ((perm_sorted xs).trans perm.symm)

/-- What is sorted does not depend on the order before. -/
theorem sorted_eq_of_perm (h : xs.Perm ys) : sorted xs = sorted ys :=
  sorted_eq_iff.mpr ⟨(perm_sorted ys).trans h.symm, ascending_sorted ys⟩

/-- The median does not depend on the order. -/
theorem median_eq_of_perm (h : xs.Perm ys) : median xs = median ys := by
  rw [median, median, sorted_eq_of_perm h]

/-- Neither does a percentile. -/
theorem percentile_eq_of_perm (h : xs.Perm ys) (p : Float) :
    percentile xs p = percentile ys p := by
  rw [percentile, percentile, sorted_eq_of_perm h]

end Order

end Statistics

namespace Arguments

/-- The numbers among permuted values are permuted. -/
theorem numbers_perm {args others : List Value} (h : (collected args).Perm (collected others)) :
    (numbers args).Perm (numbers others) :=
  h.filterMap _

@[simp] theorem collected_array (vs : List Value) : collected [.array vs] = vs := by
  simp [collected, items]

end Arguments

namespace PlainBuiltin

open Arguments

section Quantiles

variable (nan : NanChoice) {vs ws : List Value}

/-- A figure is a number. -/
theorem figure_eq_number (p : PlainBuiltin) (least : Nat) (xs : List Float) (x : Float) :
    ∃ y, p.figure nan least xs x = .number y := by
  unfold figure
  split
  · exact ⟨_, rfl⟩
  · exact ⟨_, rfl⟩

/-- The median of what is collected. -/
theorem answer_median (args : List Value) :
    median.answer nan args = .ok (median.figure nan 1 (Statistics.sorted (numbers args))
      (Statistics.median (numbers args))) := rfl

/-- The percentile of numbers: NaN where there are none. -/
theorem answer_percentile (vs rest : List Value) :
    let xs := numbers [.array vs]
    let p := (rest.headD .null).toNumber
    percentile.answer nan (.array vs :: rest) =
      if 0 ≤ p ∧ p ≤ 1 then
        .ok (.number (if xs.isEmpty then .of Number.nan
          else nan.settle "PERCENTILE" (.of p :: (Statistics.sorted xs).map .of)
            (Statistics.percentile xs p)))
      else .error .percentileOutOfRange := by
  intro xs p
  have answered : percentile.answer nan (.array vs :: rest) = if 0 ≤ p ∧ p ≤ 1 then
      .ok (if xs.isEmpty then .number (.of Number.nan)
        else .number (nan.settle "PERCENTILE" (.of p :: (Statistics.sorted xs).map .of)
          (Statistics.percentile xs p)))
      else .error .percentileOutOfRange := by
    cases rest <;> rfl
  rw [answered, apply_ite Value.number]

/-- **Medians and percentiles do not depend on the order of the values.**  For an
array and a permutation of it, `MEDIAN` answers with the same number, to the last
bit; and so does `PERCENTILE`, whatever the other arguments, or it refuses both
for the same reason. -/
theorem quantiles_of_perm (h : vs.Perm ws) :
    (∃ x, median.answer nan [.array vs] = .ok (.number x) ∧
      median.answer nan [.array ws] = .ok (.number x)) ∧
    ∀ rest, (∃ x, percentile.answer nan (.array vs :: rest) = .ok (.number x) ∧
        percentile.answer nan (.array ws :: rest) = .ok (.number x)) ∨
      ∃ c, percentile.answer nan (.array vs :: rest) = .error c ∧
        percentile.answer nan (.array ws :: rest) = .error c := by
  have perm : (numbers [.array vs]).Perm (numbers [.array ws]) :=
    numbers_perm (by rwa [collected_array, collected_array])
  constructor
  · obtain ⟨x, figure⟩ := figure_eq_number nan median 1
      (Statistics.sorted (numbers [.array ws])) (Statistics.median (numbers [.array ws]))
    refine ⟨x, ?_, by rw [answer_median, figure]⟩
    rw [answer_median, Statistics.sorted_eq_of_perm perm, Statistics.median_eq_of_perm perm, figure]
  · intro rest
    have empty : (numbers [.array vs]).isEmpty = (numbers [.array ws]).isEmpty := by
      rw [Bool.eq_iff_iff, List.isEmpty_iff, List.isEmpty_iff]
      exact ⟨fun h => (h ▸ perm).nil_eq.symm, fun h => (h ▸ perm).eq_nil⟩
    rw [answer_percentile, answer_percentile, empty, Statistics.sorted_eq_of_perm perm,
      Statistics.percentile_eq_of_perm perm]
    split
    · exact .inl ⟨_, rfl, rfl⟩
    · exact .inr ⟨_, rfl, rfl⟩

end Quantiles

/-- Entries of which some are no numbers, out of order. -/
def scores : List Value :=
  [.number 3, .text " 1 ", .null, .number (-0), .number (.of Number.infinity), .number 0,
    .bool true, .number (-.of Number.nan)]

/-- The numbers among the scores. -/
theorem numbers_scores : numbers [.array scores] = [3, 1, -0, Number.infinity, 0] := by
  decide +kernel

/-- They are sorted with a negative zero in front. -/
theorem sorted_scores :
    Statistics.sorted (numbers [.array scores]) = [-0, 0, 1, 3, Number.infinity] := by
  rw [numbers_scores]
  exact Statistics.sorted_eq_iff.mpr ⟨by decide +kernel, by decide +kernel⟩

/-- The median and a quartile of the scores. -/
theorem answer_scores : median.answer nan [.array scores] = .ok (.number 1) ∧
    percentile.answer nan [.array scores, .text "0.25"] = .ok (.number 0) := by
  have middle : Statistics.median (numbers [.array scores]) = 1 := by
    rw [Statistics.median, sorted_scores]
    rfl
  have quarter :
      Statistics.percentile (numbers [.array scores]) (Value.text "0.25").toNumber = 0 := by
    rw [Statistics.percentile, sorted_scores]
    decide +kernel
  constructor
  · rw [answer_median, middle, sorted_scores, figure, if_neg (by decide), computed,
      Double.settle_of_not_isNaN (by decide +kernel)]
    rfl
  · rw [answer_percentile, List.headD_cons, if_pos (by decide +kernel), quarter, numbers_scores,
      Double.settle_of_not_isNaN (by decide +kernel)]
    rfl

/-- The zeros, the infinity and what does not count may come in any order. -/
theorem quantiles_of_perm_scores : scores.Perm scores.reverse ∧
    median.answer Host.still.nan [.array scores.reverse] = .ok (.number 1) ∧
    percentile.answer Host.still.nan [.array scores.reverse, .text "0.25"] = .ok (.number 0) := by
  obtain ⟨middle, quarter⟩ := answer_scores
  have perm := (List.reverse_perm scores).symm
  obtain ⟨⟨x, forwards, backwards⟩, others⟩ := quantiles_of_perm Host.still.nan perm
  refine ⟨perm, by rw [backwards, ← forwards, middle], ?_⟩
  rcases others [.text "0.25"] with ⟨y, forwards, backwards⟩ | ⟨c, refused, _⟩
  · rw [backwards, ← forwards, quarter]
  · rw [quarter] at refused
    cases refused

end PlainBuiltin

end FormulaSheet
