import FormulaSheet.Proofs.Doubles

/-!
# The order of numbers

Numbers are compared in two ways: by value, where a NaN compares with nothing
and the two zeros are equal, and by place, as in sorting, where every number has
a place of its own.  Both go by the level of a number, the integer that its
exponent and its mantissa make one after the other.

* `Number.lt_iff_level`, `Number.le_iff_level` — by value, the lesser number is
  on the lower level;
* `Number.not_lt_iff_le` — so not less is at least, unless there is a NaN;
* `Double.place_injective` — no two bits have one place, those of NaNs neither;
* `Number.place_lt_of_lt` — the lesser number has the lower place.
-/

namespace FormulaSheet.Number

open Float.Model Float.Model.UnpackedFloat

/-- The level of a positive number. -/
def magnitude (m : Nat) (e : Int) : Int := (e + 1074) * 2 ^ 52 + m

/-- The level of the positive infinity, above that of every other number. -/
def topLevel : Int := 2047 * 2 ^ 52

/-- The level of an unpacked number. -/
def levelOf : UnpackedFloat → Int
  | .infinity s => s.apply topLevel
  | .finite s m e _ => s.apply (magnitude m e)
  | .zero _ | .notANumber => 0

/-- The level of a number.  The two zeros are on one level. -/
def level (x : Float) : Int := levelOf x.toModel.unpack

section Levels

variable {m n : Nat} {e f : Int}

/-- A magnitude is above zero. -/
theorem magnitude_pos (h : Canonical m e) : 0 < magnitude m e := by
  obtain ⟨pos, _, least, _, _⟩ := h
  unfold magnitude
  omega

/-- It is below that of infinity. -/
theorem magnitude_lt_topLevel (h : Canonical m e) : magnitude m e < topLevel := by
  obtain ⟨_, fits, _, greatest, _⟩ := h
  unfold magnitude topLevel
  omega

/-- A number of a higher exponent is on a higher level: its mantissa is full. -/
theorem magnitude_lt_of_lt (h : Canonical m e) (h' : Canonical n f) (lt : e < f) :
    magnitude m e < magnitude n f := by
  obtain ⟨_, fits, least, _, _⟩ := h
  obtain ⟨_, _, _, _, full⟩ := h'
  unfold magnitude
  omega

/-- Positive numbers compare as their levels. -/
theorem compare_magnitude (h : Canonical m e) (h' : Canonical n f) :
    compare (magnitude m e) (magnitude n f) = (compare e f).then (compare m n) := by
  rcases lt_trichotomy e f with lt | rfl | gt
  · rw [compare_lt_iff_lt.mpr lt, compare_lt_iff_lt.mpr (magnitude_lt_of_lt h h' lt)]
    rfl
  · have shifted : ∀ c : Int, compare (c + m) (c + n) = compare m n := by
      intro c
      rcases lt_trichotomy m n with lt | rfl | gt
      · rw [compare_lt_iff_lt.mpr lt, compare_lt_iff_lt]
        omega
      · rw [compare_eq_iff_eq.mpr rfl, compare_eq_iff_eq.mpr rfl]
      · rw [compare_gt_iff_gt.mpr gt, compare_gt_iff_gt]
        omega
    rw [compare_eq_iff_eq.mpr (rfl : e = e)]
    exact shifted _
  · rw [compare_gt_iff_gt.mpr gt, compare_gt_iff_gt.mpr (magnitude_lt_of_lt h' h gt)]
    rfl

/-- The level of a number that is finite and no zero: on its side of the zeros,
between the infinities. -/
theorem level_bounds (h : Canonical m e) (s : Sign) :
    -topLevel < s.apply (magnitude m e) ∧ s.apply (magnitude m e) < topLevel := by
  have pos := magnitude_pos h
  have below := magnitude_lt_topLevel h
  cases s <;> simp only [Sign.apply] <;> omega

/-- Numbers that are finite and no zero compare as their levels. -/
theorem compare_finite (h : Canonical m e) (h' : Canonical n f) (s t : Sign) :
    (UnpackedFloat.finite s m e h.pos).compare (.finite t n f h'.pos) =
      some (compare (s.apply (magnitude m e)) (t.apply (magnitude n f))) := by
  have pos := magnitude_pos h
  have pos' := magnitude_pos h'
  have same := compare_magnitude h h'
  cases s <;> cases t <;> simp only [UnpackedFloat.compare, Sign.apply, Option.some.injEq]
  case negative.negative =>
    rw [← same, ← Std.OrientedOrd.eq_swap]
    rcases lt_trichotomy (magnitude m e) (magnitude n f) with lt | eq | gt
    · rw [compare_gt_iff_gt.mpr lt, compare_gt_iff_gt.mpr (Int.neg_lt_neg lt)]
    · rw [eq, compare_eq_iff_eq.mpr rfl, compare_eq_iff_eq.mpr rfl]
    · rw [compare_lt_iff_lt.mpr gt, compare_lt_iff_lt.mpr (Int.neg_lt_neg gt)]
  case negative.positive => exact (compare_lt_iff_lt.mpr (by omega)).symm
  case positive.negative => exact (compare_gt_iff_gt.mpr (by omega)).symm
  case positive.positive => exact same.symm

end Levels

/-- **Numbers compare by value as their levels.** -/
theorem compare_unpack {x y : Float} (hx : x.isNaN = false) (hy : y.isNaN = false) :
    x.toModel.unpack.compare y.toModel.unpack = some (compare (level x) (level y)) := by
  have hx : x.toModel.unpack.isNaN = false := hx
  have hy : y.toModel.unpack.isNaN = false := hy
  have lt : ∀ {i j : Int}, i < j → some Ordering.lt = some (compare i j) :=
    fun h => congrArg some (compare_lt_iff_lt.mpr h).symm
  have gt : ∀ {i j : Int}, j < i → some Ordering.gt = some (compare i j) :=
    fun h => congrArg some (compare_gt_iff_gt.mpr h).symm
  unfold level
  cases ux : x.toModel.unpack with
  | notANumber =>
      rw [ux] at hx
      cases hx
  | infinity s =>
      cases uy : y.toModel.unpack with
      | notANumber =>
          rw [uy] at hy
          cases hy
      | infinity t => cases s <;> cases t <;> rfl
      | zero t => cases s <;> rfl
      | finite t n f h =>
          have bounds := level_bounds (canonical_of_unpack uy) t
          cases s
          · exact lt bounds.1
          · exact gt bounds.2
  | zero s =>
      cases uy : y.toModel.unpack with
      | notANumber =>
          rw [uy] at hy
          cases hy
      | infinity t => cases t <;> rfl
      | zero t => rfl
      | finite t n f h =>
          have pos := magnitude_pos (canonical_of_unpack uy)
          cases t
          · exact gt (Int.neg_neg_of_pos pos)
          · exact lt pos
  | finite s m e h =>
      cases uy : y.toModel.unpack with
      | notANumber =>
          rw [uy] at hy
          cases hy
      | infinity t =>
          have bounds := level_bounds (canonical_of_unpack ux) s
          cases t
          · cases s <;> exact gt bounds.1
          · cases s <;> exact lt bounds.2
      | zero t =>
          have pos := magnitude_pos (canonical_of_unpack ux)
          cases s
          · exact lt (Int.neg_neg_of_pos pos)
          · exact gt pos
      | finite t n f h' =>
          exact compare_finite (canonical_of_unpack ux) (canonical_of_unpack uy) s t

section Value

variable {x y : Float}

/-- One number is below another as their parts compare. -/
theorem lt_iff_compare :
    x < y ↔ x.toModel.unpack.compare y.toModel.unpack = some .lt := by
  show decide ((x.toModel.unpack.compare y.toModel.unpack == some .lt) = true) = true ↔ _
  simp

/-- So it is for being at most another. -/
theorem le_iff_compare :
    x ≤ y ↔ (x.toModel.unpack.compare y.toModel.unpack).any (·.isLE) = true := by
  show decide ((x.toModel.unpack.compare y.toModel.unpack).any (·.isLE) = true) = true ↔ _
  simp

/-- By value, the lesser of two numbers is on the lower level. -/
theorem lt_iff_level (hx : x.isNaN = false) (hy : y.isNaN = false) :
    x < y ↔ level x < level y := by
  rw [lt_iff_compare, compare_unpack hx hy, Option.some.injEq, compare_lt_iff_lt]

/-- The order of numbers is that of their levels. -/
theorem le_iff_level (hx : x.isNaN = false) (hy : y.isNaN = false) :
    x ≤ y ↔ level x ≤ level y := by
  rw [le_iff_compare, compare_unpack hx hy, Option.any_some]
  exact Std.isLE_compare

/-- Of two numbers that are no NaN, what is not less is at least. -/
theorem not_lt_iff_le (hx : x.isNaN = false) (hy : y.isNaN = false) : ¬ x < y ↔ y ≤ x := by
  rw [lt_iff_level hx hy, le_iff_level hy hx]
  exact Int.not_lt

/-- NaN compares with nothing. -/
theorem isNaN_eq_false_of_compare {o : Ordering}
    (h : x.toModel.unpack.compare y.toModel.unpack = some o) :
    x.isNaN = false ∧ y.isNaN = false := by
  show x.toModel.unpack.isNaN = false ∧ y.toModel.unpack.isNaN = false
  generalize x.toModel.unpack = a, y.toModel.unpack = b at h ⊢
  cases a <;> cases b <;> simp_all [UnpackedFloat.compare, UnpackedFloat.isNaN]

/-- What is below something is no NaN, nor is that. -/
theorem isNaN_eq_false_of_lt (h : x < y) : x.isNaN = false ∧ y.isNaN = false :=
  isNaN_eq_false_of_compare (lt_iff_compare.mp h)

/-- Nor are numbers one of which is at most the other. -/
theorem isNaN_eq_false_of_le (h : x ≤ y) : x.isNaN = false ∧ y.isNaN = false := by
  obtain ⟨o, compared, _⟩ := (Option.any_eq_true _ _).mp (le_iff_compare.mp h)
  exact isNaN_eq_false_of_compare compared

end Value

section Place

/-- The bits that are packed, as a natural number. -/
theorem toNat_packComponents (s : Sign) (p : BitVec 11) (f : BitVec 52) :
    (packComponents Format.binary64 s p f).toNat =
      s.toBitVec.toNat * 2 ^ 63 + p.toNat * 2 ^ 52 + f.toNat := by
  simp only [packComponents, BitVec.toNat_append]
  rw [← Nat.shiftLeft_add_eq_or_of_lt f.isLt, ← Nat.shiftLeft_add_eq_or_of_lt p.isLt]
  simp only [Nat.shiftLeft_eq]
  omega

/-- The biased exponent and the fraction, one after the other, are the level up to
the sign. -/
theorem levelOf_packComponents {s : Sign} {p : BitVec 11} {f : BitVec 52}
    (h : (unpack Format.binary64 (packComponents Format.binary64 s p f)).isNaN = false) :
    levelOf (unpack Format.binary64 (packComponents Format.binary64 s p f)) =
      s.apply (p.toNat * 2 ^ 52 + f.toNat : Nat) := by
  rw [unpack_packComponents] at h ⊢
  by_cases top : p = -1#11
  · rw [if_pos top] at h ⊢
    by_cases none : f = 0#52
    · subst top none
      rfl
    · rw [if_neg none] at h
      cases h
  · rw [if_neg top]
    by_cases low : p = 0#11
    · rw [if_pos low]
      by_cases none : f = 0#52
      · subst low none
        cases s <;> decide
      · simp [none, low, levelOf, magnitude]
    · rw [if_neg low, levelOf, magnitude]
      congr 1
      push_cast
      omega

/-- The bits of a number are its sign and its level. -/
theorem bits_eq_level {x : Float} (hx : x.isNaN = false) :
    ∃ (s : Sign) (n : Nat), n < 2 ^ 63 ∧ level x = s.apply n ∧
      x.toBits.toNat = s.toBitVec.toNat * 2 ^ 63 + n := by
  obtain ⟨s, p, f, parts⟩ := exists_packComponents x.toModel.toBits.toBitVec
  have below := p.isLt
  have fits := f.isLt
  have whole : (unpack Format.binary64 (packComponents Format.binary64 s p f)).isNaN = false := by
    rw [parts]
    exact hx
  refine ⟨s, p.toNat * 2 ^ 52 + f.toNat, by omega, ?_, ?_⟩
  · rw [← levelOf_packComponents whole, parts]
    rfl
  · rw [← Nat.add_assoc, ← toNat_packComponents, parts]
    rfl

/-- A number has its level for its place, and the one below it if its sign is
negative. -/
theorem place_eq_level {x : Float} (hx : x.isNaN = false) :
    ∃ n : Nat, (level x = n ∧ (Double.of x).place = n) ∨
      (level x = -n ∧ (Double.of x).place = -n - 1) := by
  obtain ⟨s, n, below, onLevel, bits⟩ := bits_eq_level hx
  have place : (Double.of x).place =
      if x.toBits.toNat < Nat.pow 2 63 then (x.toBits.toNat : Int)
      else -((x.toBits.toNat - Nat.pow 2 63 : Nat) : Int) - 1 := rfl
  rw [bits] at place
  refine ⟨n, ?_⟩
  cases s with
  | positive =>
      have low : Sign.positive.toBitVec.toNat * 2 ^ 63 + n = n := Nat.zero_add n
      rw [low, if_pos (show n < Nat.pow 2 63 from below)] at place
      exact .inl ⟨onLevel, place⟩
  | negative =>
      have high : Sign.negative.toBitVec.toNat * 2 ^ 63 + n = Nat.pow 2 63 + n := rfl
      rw [high, if_neg (Nat.not_lt.mpr (Nat.le_add_right _ _)), Nat.add_sub_cancel_left] at place
      exact .inr ⟨onLevel, place⟩

/-- The lesser number has the lower place. -/
theorem place_lt_of_lt {x y : Float} (h : x < y) : (Double.of x).place < (Double.of y).place := by
  obtain ⟨hx, hy⟩ := isNaN_eq_false_of_lt h
  have levels := (lt_iff_level hx hy).mp h
  obtain ⟨m, hm⟩ := place_eq_level hx
  obtain ⟨n, hn⟩ := place_eq_level hy
  omega

end Place

end FormulaSheet.Number
