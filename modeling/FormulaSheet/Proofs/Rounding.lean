import FormulaSheet.Proofs.Packing

/-!
# Rounding to numbers

A number that is no zero is a mantissa and an exponent, `mantissa · 2 ^ exponent`,
in canonical form.  It is the number nearest to every rational in its basin,
so rounding the rational gives the number.

* `Number.Marks` — what the residual bits of a mantissa say;
* `Decimal.Basin.Holds` — the rationals in the basin of a number;
* `Number.roundWithAccuracy_of_holds` — a rational rounds to the number whose
  basin it is in.
-/

namespace FormulaSheet

open Float.Model Float.Model.UnpackedFloat

namespace Number

/-- The rationals that an extended mantissa may stand for: it is the integer
part, and the residual bits tell where in its half the fraction is. -/
def Marks : ExtendedMantissa → ℚ → Prop
  | ⟨k, false, false⟩, x => x = k
  | ⟨k, false, true⟩, x => k < x ∧ x < k + 1 / 2
  | ⟨k, true, false⟩, x => x = k + 1 / 2
  | ⟨k, true, true⟩, x => k + 1 / 2 < x ∧ x < k + 1

theorem Marks.floor {em : ExtendedMantissa} {x : ℚ} (h : Marks em x) :
    em.mantissa ≤ x ∧ x < em.mantissa + 1 := by
  rcases em with ⟨k, _ | _, _ | _⟩ <;> simp only [Marks] at h ⊢ <;> constructor <;> linarith

/-- Shifting right by one place halves what is stood for. -/
theorem Marks.shiftRightOne {em : ExtendedMantissa} {x : ℚ} (h : Marks em x) :
    Marks em.shiftRightOne (x / 2) := by
  obtain ⟨k, b, c⟩ := em
  obtain ⟨j, half⟩ : ∃ j, k = 2 * j ∨ k = 2 * j + 1 := ⟨k / 2, by omega⟩
  rcases half with rfl | rfl
  · have whole : 2 * j / 2 = j := by omega
    have even : (2 * j % 2 != 0) = false := by simp
    rw [ExtendedMantissa.shiftRightOne]
    simp only [whole, even]
    cases b <;> cases c <;> simp only [Marks, Bool.or_false, Bool.or_true] at h ⊢ <;>
      push_cast at h ⊢ <;> first | linarith | (constructor <;> linarith)
  · have whole : (2 * j + 1) / 2 = j := by omega
    have odd : ((2 * j + 1) % 2 != 0) = true := by
      have : (2 * j + 1) % 2 = 1 := by omega
      simp [this]
    rw [ExtendedMantissa.shiftRightOne]
    simp only [whole, odd]
    cases b <;> cases c <;> simp only [Marks, Bool.or_false, Bool.or_true] at h ⊢ <;>
      push_cast at h ⊢ <;> first | linarith | (constructor <;> linarith)

theorem Marks.shiftRight {em : ExtendedMantissa} {x : ℚ} (h : Marks em x) (n : Nat) :
    Marks (em >>> n) (x / 2 ^ n) := by
  show Marks (n.repeat ExtendedMantissa.shiftRightOne em) _
  induction n with
  | zero => simpa [Nat.repeat] using h
  | succ n ih =>
      rw [Nat.repeat, pow_succ, ← div_div]
      exact ih.shiftRightOne

/-- The even one of two neighbours is taken if they are equally near. -/
def Near (n : Nat) (x : ℚ) : Prop :=
  n - 1 / 2 < x ∧ x < n + 1 / 2 ∨ (x = n - 1 / 2 ∨ x = n + 1 / 2) ∧ n % 2 = 0

/-- A mantissa is rounded to the integer nearest to what it stands for. -/
theorem Marks.roundedMantissa {em : ExtendedMantissa} {x : ℚ} (h : Marks em x) {n : Nat}
    (near : Near n x) : em.roundedMantissa = n := by
  obtain ⟨k, b, c⟩ := em
  have le : k ≤ n := by
    have below := h.floor.1
    have : (k : ℚ) < n + 1 := by
      rcases near with ⟨-, h⟩ | ⟨h | h, -⟩ <;> simp only at below <;> linarith
    exact Nat.lt_succ_iff.mp (by exact_mod_cast this)
  have le' : n ≤ k + 1 := by
    have above := h.floor.2
    have : (n : ℚ) < k + 2 := by
      rcases near with ⟨h, -⟩ | ⟨h | h, -⟩ <;> simp only at above <;> linarith
    have : n < k + 2 := by exact_mod_cast this
    omega
  obtain rfl | rfl : n = k ∨ n = k + 1 := by omega
  · cases b <;> cases c <;> simp only [Marks] at h <;>
      simp only [ExtendedMantissa.roundedMantissa, ExtendedMantissa.accuracy,
        Accuracy.roundToNearestEven]
    · rcases near with ⟨-, h⟩ | ⟨h | h, even⟩
      · linarith
      · linarith
      · omega
    · rcases near with ⟨-, h⟩ | ⟨h | h, even⟩ <;> linarith
  · push_cast [Near] at near
    cases b <;> cases c <;> simp only [Marks] at h <;>
      simp only [ExtendedMantissa.roundedMantissa, ExtendedMantissa.accuracy,
        Accuracy.roundToNearestEven]
    · rcases near with ⟨h, -⟩ | ⟨h | h, even⟩ <;> linarith
    · rcases near with ⟨h, -⟩ | ⟨h | h, even⟩ <;> linarith
    · rcases near with ⟨h, -⟩ | ⟨h | h, even⟩
      · linarith
      · omega
      · linarith

theorem targetExponent_eq (t : Int) : Format.binary64.targetExponent t = max (t - 53) (-1074) := by
  have bits : (Format.binary64.mantissaBits : Int) = 53 := rfl
  have least : Format.binary64.minExponent = -1074 := by decide
  rw [Format.targetExponent, bits, least]

/-- A canonical exponent is the one to aim at. -/
theorem Canonical.targetExponent {m : Nat} {e : Int} (h : Canonical m e) :
    Format.binary64.targetExponent (totalExponent m e) = e := by
  have below : m.log2 < 53 := (Nat.log2_lt (Nat.ne_of_gt h.pos)).mpr h.fits
  rw [targetExponent_eq, totalExponent]
  have least := h.least
  rcases h.full with full | rfl
  · have above : 52 ≤ m.log2 := (Nat.le_log2 (Nat.ne_of_gt h.pos)).mpr full
    omega
  · omega

/-- What has an integer part is below the power of its total exponent, and at
least half of that unless the integer part is zero. -/
theorem totalExponent_spec {k : Nat} {x : ℚ} (le : k ≤ x) (lt : x < k + 1) (f : Int) :
    x * 2 ^ f < 2 ^ totalExponent k f ∧
      (0 < k → (2 : ℚ) ^ (totalExponent k f - 1) ≤ x * 2 ^ f) := by
  have unit : (0 : ℚ) < 2 ^ f := by positivity
  constructor
  · have above : (k : ℚ) + 1 ≤ 2 ^ (k.log2 + 1) := by exact_mod_cast k.lt_log2_self
    calc x * 2 ^ f < (k + 1) * 2 ^ f := mul_lt_mul_of_pos_right lt unit
      _ ≤ 2 ^ (k.log2 + 1) * 2 ^ f := mul_le_mul_of_nonneg_right above unit.le
      _ = 2 ^ totalExponent k f := by
        rw [totalExponent, zpow_add₀ two_ne_zero]
        norm_cast
  · intro pos
    have below : (2 : ℚ) ^ k.log2 ≤ k := by exact_mod_cast Nat.log2_self_le (Nat.ne_of_gt pos)
    calc (2 : ℚ) ^ (totalExponent k f - 1) = 2 ^ k.log2 * 2 ^ f := by
          rw [totalExponent, add_right_comm, add_sub_cancel_right, zpow_add₀ two_ne_zero]
          norm_cast
      _ ≤ k * 2 ^ f := mul_le_mul_of_nonneg_right below unit.le
      _ ≤ x * 2 ^ f := mul_le_mul_of_nonneg_right le unit.le

end Number

namespace Decimal

/-- A rational lies in a basin. -/
def Basin.Holds (b : Basin) (q : ℚ) : Prop :=
  if b.closed then b.low * 2 ^ (b.exponent - 2) ≤ q ∧ q ≤ b.high * 2 ^ (b.exponent - 2)
  else b.low * 2 ^ (b.exponent - 2) < q ∧ q < b.high * 2 ^ (b.exponent - 2)

end Decimal

namespace Number

open Decimal

variable {m : Nat} {e : Int}

/-- What a basin holds, in units of the last place of the mantissa. -/
theorem bounds_of_holds (canonical : Canonical m e) {q : ℚ} (h : (basin m e).Holds q) :
    Near m (q / 2 ^ e) ∧ (m = 2 ^ 52 → -1074 < e → (m : ℚ) - 1 / 4 ≤ q / 2 ^ e) := by
  have unit : (0 : ℚ) < 2 ^ e := by positivity
  obtain ⟨x, rfl⟩ : ∃ x : ℚ, q = x * 2 ^ e := ⟨q / 2 ^ e, by field_simp⟩
  have quarter : (2 : ℚ) ^ (e - 2) = 1 / 4 * 2 ^ e := by
    rw [zpow_sub₀ two_ne_zero]
    norm_num
    ring
  have whole : x * 2 ^ e / 2 ^ e = x := by field_simp
  have scaled : ∀ a : ℚ, a * 2 ^ (e - 2) = a / 4 * 2 ^ e := fun a => by rw [quarter]; ring
  rw [whole]
  simp only [Basin.Holds, basin, Nat.pow_eq, scaled, mul_le_mul_iff_left₀ unit,
    mul_lt_mul_iff_left₀ unit] at h
  have pos : 1 ≤ m := canonical.pos
  have one : ((4 * m - 1 : Nat) : ℚ) = 4 * m - 1 := by
    rw [Nat.cast_sub (by omega)]
    push_cast
    ring
  have two : ((4 * m - 2 : Nat) : ℚ) = 4 * m - 2 := by
    rw [Nat.cast_sub (by omega)]
    push_cast
    ring
  have high : ((4 * m + 2 : Nat) : ℚ) = 4 * m + 2 := by push_cast; ring
  by_cases edge : m = 2 ^ 52 ∧ -1074 < e
  · have even : m % 2 = 0 := by omega
    rw [if_pos edge, if_pos (by simpa using even), one, high] at h
    refine ⟨?_, fun _ _ => by linarith⟩
    rcases h.2.lt_or_eq with below | edge
    · exact .inl ⟨by linarith, by linarith⟩
    · exact .inr ⟨.inr (by linarith), even⟩
  · rw [if_neg edge, two, high] at h
    refine ⟨?_, fun hm he => absurd ⟨hm, he⟩ edge⟩
    split at h
    · rename_i even
      have even : m % 2 = 0 := by simpa using even
      rcases h.1.lt_or_eq with above | edge
      · rcases h.2.lt_or_eq with below | edge
        · exact .inl ⟨by linarith, by linarith⟩
        · exact .inr ⟨.inr (by linarith), even⟩
      · exact .inr ⟨.inl (by linarith), even⟩
    · exact .inl ⟨by linarith, by linarith⟩

/-- A rational in the basin of a number is near to its mantissa in the place
that rounding keeps; below a power of two it may be one place farther down, and
near to the power. -/
theorem near_of_holds (canonical : Canonical m e) {q : ℚ} (h : (basin m e).Holds q) {t : Int}
    (lt : q < 2 ^ t) (le : ∀ a, q < 2 ^ a → t ≤ max a (-1021)) :
    max (t - 53) (-1074) = e ∧ Near m (q / 2 ^ e) ∨
      max (t - 53) (-1074) = e - 1 ∧ m = 2 ^ 52 ∧ Near (2 ^ 53) (q / 2 ^ (e - 1)) := by
  have unit : (0 : ℚ) < 2 ^ e := by positivity
  obtain ⟨near, edge⟩ := bounds_of_holds canonical h
  obtain ⟨x, rfl⟩ : ∃ x : ℚ, q = x * 2 ^ e := ⟨q / 2 ^ e, by field_simp⟩
  have whole : x * 2 ^ e / 2 ^ e = x := by field_simp
  rw [whole] at near edge ⊢
  have fits : (m : ℚ) ≤ 2 ^ 53 - 1 := by
    have := canonical.fits
    have : m + 1 ≤ 2 ^ 53 := this
    have : (m : ℚ) + 1 ≤ 2 ^ 53 := by exact_mod_cast this
    linarith
  have least := canonical.least
  have place : ∀ n : Nat, (2 : ℚ) ^ n * 2 ^ e = 2 ^ (n + e) := by
    intro n
    rw [zpow_add₀ two_ne_zero, zpow_natCast]
  by_cases above : (2 : ℚ) ^ 52 ≤ x
  · -- all of the mantissa's bits are there
    have top : x < 2 ^ 53 := by rcases near with ⟨-, h⟩ | ⟨h | h, -⟩ <;> linarith
    have lower : ((52 : Nat) + e : Int) < t := by
      refine (zpow_lt_zpow_iff_right₀ one_lt_two).mp (lt_of_le_of_lt ?_ lt)
      rw [← place]
      exact mul_le_mul_of_nonneg_right above unit.le
    have upper := le ((53 : Nat) + e) (by
      rw [← place]
      exact mul_lt_mul_of_pos_right top unit)
    exact .inl ⟨by omega, near⟩
  · push Not at above
    have upper := le ((52 : Nat) + e) (by
      rw [← place]
      exact mul_lt_mul_of_pos_right above unit)
    rcases least.eq_or_lt with rfl | normal
    · exact .inl ⟨by omega, near⟩
    · -- the bits that are there are those of the power of two below
      have full : 2 ^ 52 ≤ m := canonical.full.resolve_right (by omega)
      have power : m = 2 ^ 52 := by
        by_contra other
        have more : 2 ^ 52 + 1 ≤ m := by omega
        have more : (2 : ℚ) ^ 52 + 1 ≤ m := by exact_mod_cast more
        rcases near with ⟨h, -⟩ | ⟨h | h, -⟩ <;> linarith
      have edge := edge power normal
      subst power
      push_cast at edge
      have half : x * 2 ^ e / 2 ^ (e - 1) = 2 * x := by
        rw [zpow_sub_one₀ two_ne_zero]
        field_simp
      have lower : ((51 : Nat) + e : Int) < t := by
        refine (zpow_lt_zpow_iff_right₀ one_lt_two).mp (lt_of_le_of_lt ?_ lt)
        rw [← place]
        exact mul_le_mul_of_nonneg_right (by linarith) unit.le
      refine .inr ⟨by omega, rfl, ?_⟩
      rw [half]
      rcases edge.lt_or_eq with inside | edge
      · exact .inl ⟨by push_cast; linarith, by push_cast; linarith⟩
      · exact .inr ⟨.inl (by push_cast; linarith), by norm_num⟩

/-- Shifting brings what is stood for to the exponent that is aimed at. -/
theorem shiftToExponent_spec {k : Nat} {f : Int} {accuracy : Accuracy} {x : ℚ}
    (marks : Marks (ExtendedMantissa.ofMantissaAndAccuracy k accuracy) x) {t : Int} (le : f ≤ t) :
    (shiftToExponent k f accuracy t).2 = t ∧
      Marks (shiftToExponent k f accuracy t).1 (x * 2 ^ f / 2 ^ t) := by
  have apart : f + ((t - f).toNat : Int) = t := by omega
  refine ⟨apart, ?_⟩
  have shifted := marks.shiftRight (t - f).toNat
  have eq : x * 2 ^ f / 2 ^ t = x / 2 ^ (t - f).toNat := by
    rw [← apart, zpow_add₀ two_ne_zero, zpow_natCast]
    have : (2 : ℚ) ^ f ≠ 0 := by positivity
    simp only [add_sub_cancel_left, Int.toNat_natCast]
    field_simp
  rw [eq]
  exact shifted

/-- The integer part may stand for itself. -/
theorem shiftToExponent_exact (k : Nat) (t : Int) :
    shiftToExponent k t .exact t = (⟨k, false, false⟩, t) := by
  simp [shiftToExponent, ExtendedMantissa.ofMantissaAndAccuracy]
  rfl

/-- **A rational rounds to the number whose basin it is in.** -/
theorem roundWithAccuracy_of_holds (canonical : Canonical m e) (sign : Sign) {k : Nat} {f : Int}
    {accuracy : Accuracy} {x : ℚ}
    (marks : Marks (ExtendedMantissa.ofMantissaAndAccuracy k accuracy) x)
    (room : f ≤ Format.binary64.targetExponent (totalExponent k f))
    (holds : (basin m e).Holds (x * 2 ^ f)) :
    roundWithAccuracy Format.binary64 sign k f accuracy = .finite sign m e canonical.pos := by
  have whole : (ExtendedMantissa.ofMantissaAndAccuracy k accuracy).mantissa = k := by
    unfold ExtendedMantissa.ofMantissaAndAccuracy
    split <;> rfl
  have floor := marks.floor
  rw [whole] at floor
  obtain ⟨lt, le⟩ := totalExponent_spec floor.1 floor.2 f
  have top : ∀ a, x * 2 ^ f < 2 ^ a → totalExponent k f ≤ max a (-1021) := by
    intro a ha
    rcases Nat.eq_zero_or_pos k with rfl | pos
    · rw [targetExponent_eq, totalExponent] at room
      rw [totalExponent]
      have : Nat.log2 0 = 0 := by decide
      omega
    · have := (zpow_lt_zpow_iff_right₀ one_lt_two).mp (lt_of_le_of_lt (le pos) ha)
      omega
  have near := near_of_holds canonical holds lt top
  rw [← targetExponent_eq] at near
  obtain ⟨exponent, shifted⟩ := shiftToExponent_spec marks room
  unfold roundWithAccuracy shiftToTargetExponent
  generalize shiftToExponent k f accuracy
    (Format.binary64.targetExponent (totalExponent k f)) = first at exponent shifted ⊢
  obtain ⟨em, g⟩ := first
  dsimp only at exponent shifted ⊢
  subst exponent
  rcases near with ⟨here, near⟩ | ⟨below, rfl, near⟩
  · rw [here] at shifted ⊢
    simp only [shifted.roundedMantissa near, canonical.targetExponent, shiftToExponent_exact]
    exact dif_neg (Nat.ne_of_gt canonical.pos)
  · rw [below] at shifted ⊢
    have next : Format.binary64.targetExponent (totalExponent (2 ^ 53) (e - 1)) = e := by
      have bits : Nat.log2 (2 ^ 53) = 53 := by decide
      have least := canonical.least
      rw [targetExponent_eq, totalExponent, bits]
      omega
    have halved : shiftToExponent (2 ^ 53) (e - 1) .exact e = (⟨2 ^ 52, false, false⟩, e) := by
      have one : (e - (e - 1)).toNat = 1 := by omega
      simp only [shiftToExponent, one]
      refine Prod.ext ?_ (by simp)
      rfl
    simp only [shifted.roundedMantissa near, next, halved]
    exact dif_neg (by decide)

/-- A basin holds the number itself. -/
theorem holds_self (canonical : Canonical m e) : (basin m e).Holds (m * 2 ^ e) := by
  have unit : (0 : ℚ) < 2 ^ (e - 2) := by positivity
  have whole : (m : ℚ) * 2 ^ e = (4 * m : Nat) * 2 ^ (e - 2) := by
    rw [zpow_sub₀ two_ne_zero]
    push_cast
    ring
  have pos := canonical.pos
  have low : ((basin m e).low : ℚ) < (4 * m : Nat) := by
    rw [Nat.cast_lt]
    unfold basin
    dsimp only
    split <;> omega
  have high : ((4 * m : Nat) : ℚ) < (basin m e).high := by
    rw [Nat.cast_lt]
    unfold basin
    dsimp only
    omega
  have below := mul_lt_mul_of_pos_right low unit
  have above := mul_lt_mul_of_pos_right high unit
  rw [whole]
  unfold Basin.Holds
  split
  · exact ⟨below.le, above.le⟩
  · exact ⟨below, above⟩

/-- Basins hold positive rationals in the range of numbers. -/
theorem range_of_holds (canonical : Canonical m e) {q : ℚ} (h : (basin m e).Holds q) :
    2 ^ (-1075 : Int) ≤ q ∧ q < 2 ^ (1024 : Int) := by
  have unit : (0 : ℚ) < 2 ^ e := by positivity
  obtain ⟨near, -⟩ := bounds_of_holds canonical h
  obtain ⟨x, rfl⟩ : ∃ x : ℚ, q = x * 2 ^ e := ⟨q / 2 ^ e, by field_simp⟩
  have whole : x * 2 ^ e / 2 ^ e = x := by field_simp
  rw [whole] at near
  have pos : (1 : ℚ) ≤ m := by exact_mod_cast canonical.pos
  have fits : (m : ℚ) + 1 ≤ 2 ^ 53 := by exact_mod_cast canonical.fits
  constructor
  · have half : 1 / 2 ≤ x := by rcases near with ⟨h, -⟩ | ⟨h | h, -⟩ <;> linarith
    calc (2 : ℚ) ^ (-1075 : Int) ≤ 2 ^ (e - 1) :=
          zpow_le_zpow_right₀ one_le_two (by have := canonical.least; omega)
      _ = 1 / 2 * 2 ^ e := by
        rw [zpow_sub_one₀ two_ne_zero]
        ring
      _ ≤ x * 2 ^ e := mul_le_mul_of_nonneg_right half unit.le
  · have top : x < 2 ^ 53 := by rcases near with ⟨-, h⟩ | ⟨h | h, -⟩ <;> linarith
    calc x * 2 ^ e < 2 ^ 53 * 2 ^ e := mul_lt_mul_of_pos_right top unit
      _ = 2 ^ ((53 : Nat) + e) := by rw [zpow_add₀ two_ne_zero, zpow_natCast]
      _ ≤ 2 ^ (1024 : Int) :=
        zpow_le_zpow_right₀ one_le_two (by have := canonical.greatest; omega)

end Number

end FormulaSheet
