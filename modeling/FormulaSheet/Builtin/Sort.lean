/-!
# Putting a list in order

A stable sort: what ties stays in its order.  It is the merge sort of the
library in a form that computes by its structure.
-/

namespace FormulaSheet

variable {α : Type} (le : α → α → Bool)

/-- Puts `a` among values in order, before the first that it may come before,
and goes on with `rest` from there. -/
def mergeOne (a : α) (rest : List α → List α) : List α → List α
  | [] => a :: rest []
  | b :: bs => if le a b then a :: rest (b :: bs) else b :: mergeOne a rest bs

/-- One list in order of two; of what ties, the first list comes first. -/
def merge : List α → List α → List α
  | [] => fun bs => bs
  | a :: as => mergeOne le a (merge as)

/-- The values in order.  The list is halved, at most `n` times. -/
def sortWithin : (n : Nat) → List α → List α
  | 0, as => as
  | _ + 1, [] => []
  | _ + 1, [a] => [a]
  | n + 1, as =>
    let half := (as.length + 1) / 2
    merge le (sortWithin n (as.take half)) (sortWithin n (as.drop half))

/-- The values in order; those that tie stay in theirs. -/
def sortBy (as : List α) : List α := sortWithin le as.length as

/-- Two sorted lists are merged as the library does it. -/
theorem merge_eq (as bs : List α) : merge le as bs = as.merge bs le := by
  induction as generalizing bs with
  | nil => rw [merge, List.nil_merge]
  | cons a as ih =>
      rw [merge]
      induction bs with
      | nil => rw [mergeOne, ih, List.merge_right, List.merge_right]
      | cons b bs inner =>
          rw [mergeOne, List.cons_merge_cons]
          split
          · rw [ih]
          · rw [inner]

/-- Sorting is the merge sort of the library. -/
theorem sortBy_eq_mergeSort (as : List α) : sortBy le as = as.mergeSort le := by
  suffices halved : ∀ n (as : List α), as.length ≤ n → sortWithin le n as = as.mergeSort le from
    halved as.length as (Nat.le_refl _)
  intro n
  induction n with
  | zero =>
      intro as short
      rw [List.length_eq_zero_iff.mp (Nat.le_zero.mp short), sortWithin, List.mergeSort]
  | succ n ih =>
      intro as short
      match as with
      | [] => rw [sortWithin, List.mergeSort]
      | [a] => rw [sortWithin, List.mergeSort]
      | a :: b :: as =>
          rw [sortWithin, List.mergeSort]
          simp only [List.MergeSort.Internal.splitInTwo_fst,
            List.MergeSort.Internal.splitInTwo_snd, List.length_cons] at short ⊢
          rw [merge_eq, ih _ (by simp only [List.length_take, List.length_cons]; omega),
            ih _ (by simp only [List.length_drop, List.length_cons]; omega)]
          · exact List.cons_ne_nil _ _
          · exact fun _ impossible => nomatch impossible

end FormulaSheet
