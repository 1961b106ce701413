import FormulaSheet.Proofs.Freshness
import FormulaSheet.Proofs.NumberOrder

/-!
# Bounds of numbers

Rules bound numbers from below and from above, and the bounds themselves are
within.  A number is refused for being less than the lower bound or greater than
the upper one.  Of the numbers that compare this leaves those within bounds.  NaN
compares with nothing: it is never within bounds, and no bound keeps it out.

* `Rules.checkNumber_eq_none_iff` — what passes is within bounds, or is NaN;
* `Sheet.set_number_iff` — which numbers a variable can be set to;
* `Sheet.set_number_within_iff` — of those that it is set to, all but NaN are
  within bounds.
-/

namespace FormulaSheet

namespace Rules

section Bounds

variable {r : Rules} {x : Double}

/-- The rules bound numbers, from one side at least and by numbers. -/
structure Bounded (r : Rules) : Prop where
  bound : r.min.isSome = true ∨ r.max.isSome = true
  min : ∀ m ∈ r.min, m.isNaN = false
  max : ∀ m ∈ r.max, m.isNaN = false

/-- A number is at least the lower bound and at most the upper one, where there
are bounds. -/
structure Within (r : Rules) (x : Float) : Prop where
  min : ∀ m ∈ r.min, m ≤ x
  max : ∀ m ∈ r.max, x ≤ m

/-- NaN is not within bounds. -/
theorem Within.isNaN_eq_false {x : Float} (hr : r.Bounded) (h : r.Within x) : x.isNaN = false := by
  rcases hr.bound with bound | bound
  · obtain ⟨m, hm⟩ := Option.isSome_iff_exists.mp bound
    exact (Number.isNaN_eq_false_of_le (h.min m hm)).2
  · obtain ⟨m, hm⟩ := Option.isSome_iff_exists.mp bound
    exact (Number.isNaN_eq_false_of_le (h.max m hm)).1

/-- A number passes if it is neither less than the lower bound nor greater than
the upper one. -/
theorem checkNumber_eq_none_iff_not_lt : r.checkNumber (.number x) = none ↔
    (∀ m ∈ r.min, ¬ x.float < m) ∧ ∀ m ∈ r.max, ¬ m < x.float := by
  have low : r.min.filter (x.float < ·) = none ↔ ∀ m ∈ r.min, ¬ x.float < m := by
    simp [Option.filter_eq_none_iff]
  have high : (r.max.filter (· < x.float)).map Violation.above = none ↔
      ∀ m ∈ r.max, ¬ m < x.float := by
    simp [Option.filter_eq_none_iff]
  rw [checkNumber, ← low, ← high]
  cases r.min.filter (x.float < ·) <;> simp

/-- **What passes the bounds is within them, or is NaN.** -/
theorem checkNumber_eq_none_iff (hr : r.Bounded) :
    r.checkNumber (.number x) = none ↔ x.isNaN = true ∨ r.Within x.float := by
  rw [checkNumber_eq_none_iff_not_lt]
  change _ ↔ x.float.isNaN = true ∨ _
  cases hx : x.float.isNaN with
  | true =>
      refine iff_of_true ⟨fun m _ less => ?_, fun m _ less => ?_⟩ (.inl rfl)
      · rw [(Number.isNaN_eq_false_of_lt less).1] at hx
        cases hx
      · rw [(Number.isNaN_eq_false_of_lt less).2] at hx
        cases hx
  | false =>
      constructor
      · rintro ⟨low, high⟩
        exact .inr ⟨fun m hm => (Number.not_lt_iff_le hx (hr.min m hm)).mp (low m hm),
          fun m hm => (Number.not_lt_iff_le (hr.max m hm) hx).mp (high m hm)⟩
      · rintro (nan | within)
        · cases nan
        · exact ⟨fun m hm => (Number.not_lt_iff_le hx (hr.min m hm)).mpr (within.min m hm),
            fun m hm => (Number.not_lt_iff_le (hr.max m hm) hx).mpr (within.max m hm)⟩

/-- Bounds and choice are all that is demanded of a number. -/
theorem check_number (regex : Regex) : r.check regex (.number x) =
    (r.checkNumber (.number x)).or (r.checkAllowed (.number x)) := by
  simp [check, isMissing, Value.isNull, checkLength, lengthOf?, checkPattern]

end Bounds

end Rules

namespace Sheet

section Bounds

variable {s s' : Sheet} {id : String} {v : Variable} {r : Rules} {x : Double}

/-- A variable can be set to the numbers within its bounds and to NaN, if it is a
source of a type that takes numbers and they are among those allowed. -/
theorem set_number_iff (found : s.find? id = some v) (ruled : v.rules = some r)
    (bounded : r.Bounded) :
    (∃ s', s.set id (.number x) = .ok s') ↔ v.isDerived = false ∧
      v.type.accepts (.number x) = true ∧ r.checkAllowed (.number x) = none ∧
      (x.isNaN = true ∨ r.Within x.float) := by
  have demanded :
      (v.rules.bind fun r => r.check s.evaluator.setting.host.regex (.number x)) = none ↔
      (x.isNaN = true ∨ r.Within x.float) ∧ r.checkAllowed (.number x) = none := by
    rw [ruled, Option.bind_some, Rules.check_number, Option.or_eq_none_iff,
      Rules.checkNumber_eq_none_iff bounded]
  constructor
  · rintro ⟨s', h⟩
    obtain ⟨w, hw, source, accepts, passes, _⟩ := set_eq_ok.mp h
    obtain rfl : v = w := Option.some.inj (found.symm.trans hw)
    obtain ⟨within, allowed⟩ := demanded.mp passes
    exact ⟨source, accepts, allowed, within⟩
  · rintro ⟨source, accepts, allowed, within⟩
    exact ⟨_, set_eq_ok.mpr ⟨v, found, source, accepts, demanded.mpr ⟨within, allowed⟩, rfl⟩⟩

/-- **Of the numbers that a variable is set to, all but NaN are within its
bounds.**  NaN never is, though no bound keeps it out. -/
theorem set_number_within_iff (found : s.find? id = some v) (ruled : v.rules = some r)
    (bounded : r.Bounded) (accepted : s.set id (.number x) = .ok s') :
    r.Within x.float ↔ x.isNaN = false := by
  obtain ⟨_, _, _, passed⟩ := (set_number_iff found ruled bounded).mp ⟨s', accepted⟩
  constructor
  · exact Rules.Within.isNaN_eq_false bounded
  · intro number
    rcases passed with nan | within
    · rw [nan] at number
      cases number
    · exact within

end Bounds

/-- Between zero and ten. -/
def scoreRules : Rules := { Rules.unrestricted with min := some 0, max := some 10 }

theorem bounded_scoreRules : scoreRules.Bounded where
  bound := .inl rfl
  min := by
    rintro _ ⟨⟩
    decide +kernel
  max := by
    rintro _ ⟨⟩
    decide +kernel

/-- A number with these rules. -/
def score : Variable := { Variable.create "score" "score" .number with rules := some scoreRules }

/-- A sheet with the score on it. -/
def scoreSheet : Sheet := (ofEvaluator plainEvaluator).apply (.register score)

theorem find?_scoreSheet : scoreSheet.find? "score" = some score := by rfl

/-- The upper bound itself is accepted and within. -/
theorem set_number_within_ten :
    (∃ s', scoreSheet.set "score" (.number 10) = .ok s') ∧ scoreRules.Within 10 := by
  have ten : (10 : Float).isNaN = false := by decide +kernel
  have passes : scoreRules.checkNumber (.number 10) = none := by
    refine Rules.checkNumber_eq_none_iff_not_lt.mpr ⟨?_, ?_⟩
    · rintro _ ⟨⟩
      decide +kernel
    · rintro _ ⟨⟩
      decide +kernel
  obtain ⟨s', accepted⟩ := (set_number_iff find?_scoreSheet rfl bounded_scoreRules).mpr
    ⟨rfl, rfl, rfl, (Rules.checkNumber_eq_none_iff bounded_scoreRules).mp passes⟩
  exact ⟨⟨s', accepted⟩,
    (set_number_within_iff find?_scoreSheet rfl bounded_scoreRules accepted).mpr ten⟩

/-- **NaN is accepted between bounds**, and stored. -/
theorem nan_set_between_bounds :
    scoreSheet.find? "score" = some score ∧ scoreRules.Bounded ∧
    (∃ s', scoreSheet.set "score" (.number (.of Number.nan)) = .ok s' ∧
      s'.values.get? "score" = some (.number (.of Number.nan))) ∧
    ¬ scoreRules.Within Number.nan := by
  have nan : Number.nan.isNaN = true := by decide +kernel
  refine ⟨find?_scoreSheet, bounded_scoreRules, ?_, ?_⟩
  · obtain ⟨s', accepted⟩ := (set_number_iff find?_scoreSheet rfl bounded_scoreRules).mpr
      ⟨rfl, rfl, rfl, .inl ((Double.isNaN_of _).trans nan)⟩
    refine ⟨s', accepted, ?_⟩
    rw [get?_values_set accepted, if_neg (by decide +kernel), if_pos rfl]
  · intro within
    rw [within.isNaN_eq_false bounded_scoreRules] at nan
    cases nan

end Sheet

end FormulaSheet
