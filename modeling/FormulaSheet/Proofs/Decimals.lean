import FormulaSheet.Proofs.Rounding

/-!
# Decimals are rounded once

A decimal that is read is computed in one of two ways.  Few digits and a small
power of ten are numbers themselves, and one multiplication or division rounds
the result; all others are rounded from an integer or from a fraction of
integers.  Either way the value is rounded once, so a decimal in the basin of a
number is read as the number.

* `Number.mul_of_holds`, `Number.div_of_holds` — operations that round once;
* `Number.ofScientific_of_holds` — decimals with many digits or great powers;
* `Number.ofDecimal_of_holds` — any decimal.
-/

namespace FormulaSheet

open Float.Model Float.Model.UnpackedFloat

namespace Number

open Decimal

variable {m : Nat} {e : Int}

/-- The integer part and the remainder of a fraction stand for it. -/
theorem marks_fraction (a : Nat) {b : Nat} (pos : 0 < b) :
    Marks (ExtendedMantissa.ofMantissaAndAccuracy (a / b) (accuracyOfFraction (a % b) b))
      (a / b) := by
  have pos' : (0 : ℚ) < b := by exact_mod_cast pos
  have whole : (a : ℚ) / b = (a / b : Nat) + (a % b : Nat) / b := by
    field_simp
    exact_mod_cast (Nat.div_add_mod a b).symm
  have below : ((a % b : Nat) : ℚ) < b := by exact_mod_cast Nat.mod_lt a pos
  rw [whole]
  generalize a / b = k
  generalize a % b = r at below
  unfold accuracyOfFraction
  split
  · rename_i none
    subst none
    simp [ExtendedMantissa.ofMantissaAndAccuracy, Marks]
  · rename_i some
    have some : (0 : ℚ) < r := by exact_mod_cast Nat.pos_of_ne_zero some
    have fraction : 0 < (r : ℚ) / b := by positivity
    rcases order : compare (2 * r) b with _ | _ | _
    · have half := Nat.compare_eq_lt.mp order
      have half : 2 * (r : ℚ) < b := by exact_mod_cast half
      have half : (r : ℚ) / b < 1 / 2 := by
        rw [div_lt_div_iff₀ pos' two_pos]
        linarith
      exact ⟨by linarith, by linarith⟩
    · have half := Nat.compare_eq_eq.mp order
      have half : 2 * (r : ℚ) = b := by exact_mod_cast half
      have half : (r : ℚ) / b = 1 / 2 := by
        rw [div_eq_div_iff pos'.ne' two_ne_zero]
        linarith
      show _ = _
      rw [half]
    · have half := Nat.compare_eq_gt.mp order
      have half : (b : ℚ) < 2 * r := by exact_mod_cast half
      have half : 1 / 2 < (r : ℚ) / b := by
        rw [div_lt_div_iff₀ two_pos pos']
        linarith
      have one : (r : ℚ) / b < 1 := by rwa [div_lt_one pos']
      exact ⟨by linarith, by linarith⟩

section Operations

variable {s t : Sign} {a b : Nat} {f g : Int}

/-- A product that keeps enough bits is rounded once. -/
theorem mul_of_holds (canonical : Canonical m e) (ha : 0 < a) (hb : 0 < b)
    (room : f + g ≤ Format.binary64.targetExponent (totalExponent (a * b) (f + g)))
    (holds : (basin m e).Holds (a * 2 ^ f * (b * 2 ^ g))) :
    UnpackedFloat.mul Format.binary64 (.finite s a f ha) (.finite t b g hb) =
      .finite (s * t) m e canonical.pos := by
  refine roundWithAccuracy_of_holds canonical (s * t) (x := (a * b : Nat)) rfl room ?_
  convert holds using 1
  rw [zpow_add₀ two_ne_zero]
  push_cast
  ring

/-- A quotient is rounded once. -/
theorem div_of_holds (canonical : Canonical m e) (ha : 0 < a) (hb : 0 < b)
    (holds : (basin m e).Holds (a * 2 ^ f / (b * 2 ^ g))) :
    UnpackedFloat.div Format.binary64 (.finite s a f ha) (.finite t b g hb) =
      .finite (s / t) m e canonical.pos := by
  have posb : (0 : ℚ) < b := by exact_mod_cast hb
  rw [UnpackedFloat.div, divCore]
  dsimp only
  generalize low : min (f - g) (Format.binary64.targetExponent
    (totalExponent a f - totalExponent b g)) = l
  have value : ((a <<< (f - g - l).toNat : Nat) : ℚ) / b * 2 ^ l = a * 2 ^ f / (b * 2 ^ g) := by
    have apart : f - g = ((f - g - l).toNat : Int) + l := by omega
    have split : (2 : ℚ) ^ f / 2 ^ g = 2 ^ (f - g - l).toNat * 2 ^ l := by
      rw [← zpow_sub₀ two_ne_zero]
      nth_rewrite 1 [apart]
      rw [zpow_add₀ two_ne_zero, zpow_natCast]
    rw [Nat.shiftLeft_eq, mul_div_mul_comm, split]
    push_cast
    ring
  generalize a <<< (f - g - l).toNat = c at value
  have marks := marks_fraction c hb
  refine roundWithAccuracy_of_holds canonical (s / t) marks ?_ (by rwa [value])
  have floor : ((c / b : Nat) : ℚ) ≤ c / b ∧ (c : ℚ) / b < (c / b : Nat) + 1 := by
    constructor
    · exact Nat.cast_div_le
    · rw [div_lt_iff₀ posb]
      exact_mod_cast Nat.lt_mul_of_div_lt (Nat.lt_succ_self (c / b)) hb
  have above := (totalExponent_spec floor.1 floor.2 l).1
  have dividend := (totalExponent_spec (k := a) (x := a) le_rfl (by linarith) f).2 ha
  have divisor := (totalExponent_spec (k := b) (x := b) le_rfl (by linarith) g).1
  have order : totalExponent a f - 1 - totalExponent b g < totalExponent (c / b) l := by
    refine (zpow_lt_zpow_iff_right₀ one_lt_two).mp (lt_of_lt_of_le ?_ above.le)
    rw [value, zpow_sub₀ two_ne_zero]
    have posa : (0 : ℚ) < a := by exact_mod_cast ha
    exact div_lt_div₀' dividend divisor (by positivity) (by positivity)
  rw [targetExponent_eq] at low ⊢
  omega

end Operations

/-- A decimal in a basin is neither too great nor too small to be computed. -/
theorem exponent_of_holds (canonical : Canonical m e) {n : Nat} {x : Int}
    (holds : (basin m e).Holds (n * 10 ^ x)) :
    0 < n ∧ x ≤ 2 ^ 11 ∧ -(2 ^ 11 + (n.log2 : Int)) ≤ x := by
  obtain ⟨low, high⟩ := range_of_holds canonical holds
  have least : (0 : ℚ) < 2 ^ (-1075 : Int) := by positivity
  have pos : 0 < n := by
    rcases Nat.eq_zero_or_pos n with rfl | pos
    · simp only [Nat.cast_zero, zero_mul] at low
      linarith
    · exact pos
  have one : (1 : ℚ) ≤ n := by exact_mod_cast pos
  refine ⟨pos, ?_, ?_⟩
  · by_contra above
    have above : (1024 : Int) ≤ x := by omega
    have power : (2 : ℚ) ^ (1024 : Int) ≤ 10 ^ x := by
      calc (2 : ℚ) ^ (1024 : Int) ≤ 2 ^ x := zpow_le_zpow_right₀ one_le_two above
        _ ≤ 10 ^ x := zpow_le_zpow_left₀ (by omega) (by norm_num) (by norm_num)
    have : (10 : ℚ) ^ x ≤ n * 10 ^ x := le_mul_of_one_le_left (by positivity) one
    linarith
  · by_contra below
    have bits : (n : ℚ) < 2 ^ ((n.log2 + 1 : Nat) : Int) := by
      rw [zpow_natCast]
      exact_mod_cast n.lt_log2_self
    have power : (10 : ℚ) ^ x ≤ 2 ^ x := by
      have flipped : (2 : ℚ) ^ (-x) ≤ 10 ^ (-x) :=
        zpow_le_zpow_left₀ (by omega) (by norm_num) (by norm_num)
      have inverse := inv_anti₀ (by positivity) flipped
      rwa [← zpow_neg, ← zpow_neg, neg_neg] at inverse
    have : n * (10 : ℚ) ^ x < 2 ^ (-1075 : Int) := by
      calc n * (10 : ℚ) ^ x ≤ n * 2 ^ x := mul_le_mul_of_nonneg_left power (by linarith)
        _ < 2 ^ ((n.log2 + 1 : Nat) : Int) * 2 ^ x := mul_lt_mul_of_pos_right bits (by positivity)
        _ = 2 ^ (((n.log2 + 1 : Nat) : Int) + x) := (zpow_add₀ two_ne_zero _ _).symm
        _ ≤ 2 ^ (-1075 : Int) := zpow_le_zpow_right₀ one_le_two (by omega)
    linarith

/-- A decimal is computed as the number whose basin it is in. -/
theorem ofScientific_of_holds (canonical : Canonical m e) {n : Nat} {x : Int}
    (holds : (basin m e).Holds (n * 10 ^ x)) :
    UnpackedFloat.ofScientific Format.binary64 n x = .finite .positive m e canonical.pos := by
  obtain ⟨pos, le, ge⟩ := exponent_of_holds canonical holds
  have bits : Format.binary64.mantissaBits = 53 := rfl
  rw [UnpackedFloat.ofScientific]
  rw [dif_neg (Nat.ne_of_gt pos), if_neg (by simpa using le), if_neg (by simpa using ge)]
  split
  · rename_i whole
    refine mul_of_holds canonical _ _ ?_ ?_
    · have long : 2 ^ 53 ≤ (n <<< 53) * 10 ^ x.toNat := by
        rw [Nat.shiftLeft_eq]
        calc 2 ^ 53 = 1 * 2 ^ 53 * 1 := by ring
          _ ≤ n * 2 ^ 53 * 10 ^ x.toNat :=
            Nat.mul_le_mul (Nat.mul_le_mul_right _ pos) (Nat.pos_of_ne_zero (by positivity))
      have bit := (Nat.le_log2 (by omega)).mpr long
      rw [targetExponent_eq, totalExponent]
      simp only [bits]
      omega
    · convert holds using 1
      have power : (10 : ℚ) ^ x = 10 ^ x.toNat := by
        rw [← zpow_natCast, Int.toNat_of_nonneg whole]
      rw [power, bits, Nat.shiftLeft_eq]
      push_cast
      norm_num
      ring
  · rename_i fraction
    refine div_of_holds canonical _ _ ?_
    convert holds using 1
    have power : (10 : ℚ) ^ x = (10 ^ (-x).toNat)⁻¹ := by
      rw [← zpow_natCast, ← zpow_neg, Int.toNat_of_nonneg (by omega), neg_neg]
    rw [power]
    push_cast
    simp [div_eq_mul_inv]

/-- A natural number that is shifted to fill a mantissa is in canonical form. -/
theorem canonical_shiftLeft {n : Nat} (pos : 0 < n) (short : n.log2 < 53) :
    Canonical (n <<< (52 - n.log2)) (n.log2 - 52) := by
  have low : 2 ^ n.log2 ≤ n := Nat.log2_self_le (Nat.ne_of_gt pos)
  have high : n < 2 ^ (n.log2 + 1) := n.lt_log2_self
  refine ⟨?_, ?_, by omega, by omega, .inl ?_⟩ <;> rw [Nat.shiftLeft_eq]
  · positivity
  · calc n * 2 ^ (52 - n.log2) < 2 ^ (n.log2 + 1) * 2 ^ (52 - n.log2) :=
          Nat.mul_lt_mul_of_pos_right high (by positivity)
      _ = 2 ^ 53 := by
        rw [← pow_add]
        congr 1
        omega
  · calc 2 ^ 52 = 2 ^ n.log2 * 2 ^ (52 - n.log2) := by
          rw [← pow_add]
          congr 1
          omega
      _ ≤ n * 2 ^ (52 - n.log2) := Nat.mul_le_mul_right _ low

/-- A natural number of at most 53 bits is not changed by rounding. -/
theorem round_natural {n : Nat} (pos : 0 < n) (short : n.log2 < 53) :
    UnpackedFloat.round Format.binary64 .positive n 0 =
      .finite .positive (n <<< (52 - n.log2)) (n.log2 - 52)
        (canonical_shiftLeft pos short).pos := by
  have canonical := canonical_shiftLeft pos short
  have target : Format.binary64.targetExponent (totalExponent n 0) = n.log2 - 52 := by
    rw [targetExponent_eq, totalExponent]
    omega
  have shift : (0 - ((n.log2 : Int) - 52)).toNat = 52 - n.log2 := by omega
  have exponent : (0 : Int) - (52 - n.log2 : Nat) = n.log2 - 52 := by omega
  rw [UnpackedFloat.round, target, decreaseExponent]
  simp only [shift, exponent]
  exact roundWithAccuracy_of_holds canonical .positive (x := (n <<< (52 - n.log2) : Nat)) rfl
    canonical.targetExponent.ge (holds_self canonical)

/-- A natural number of at most 53 bits is a number, shifted to fill them. -/
theorem unpack_toFloat {n : Nat} (pos : 0 < n) (fits : n < 2 ^ 53) :
    ∃ a f, ∃ ha : 0 < a, n.toUInt64.toFloat.toModel.unpack = .finite .positive a f ha ∧
      (a : ℚ) * 2 ^ f = n ∧ 2 ^ 52 ≤ a := by
  have same : n.toUInt64.toNat = n := by
    show n % 2 ^ 64 = n
    omega
  have short : n.log2 < 53 := (Nat.log2_lt (Nat.ne_of_gt pos)).mpr fits
  have canonical := canonical_shiftLeft pos short
  have unpacked : UnpackedFloat.ofUInt64 Format.binary64 n.toUInt64 =
      .finite .positive (n <<< (52 - n.log2)) (n.log2 - 52) canonical.pos := by
    have sign : compare (n : Int) 0 = .gt := Int.compare_eq_gt.mpr (by omega)
    rw [← round_natural pos short, UnpackedFloat.ofUInt64, UnpackedFloat.ofNat,
      UnpackedFloat.ofInt, same]
    unfold UnpackedFloat.normalize
    rw [sign]
    rfl
  refine ⟨_, n.log2 - 52, canonical.pos, ?_, ?_, canonical.full.resolve_right (by omega)⟩
  · rw [UInt64.toFloat, Float.Model.ofUInt64, unpacked]
    exact unpack_pack_finite canonical .positive
  · rw [Nat.shiftLeft_eq, zpow_sub₀ two_ne_zero]
    have whole : (2 : ℚ) ^ (52 - n.log2) * 2 ^ n.log2 = 2 ^ 52 := by
      rw [← pow_add]
      congr 1
      omega
    push_cast
    rw [zpow_natCast, mul_assoc, ← mul_div_assoc, whole]
    norm_num

/-- A power, from its positive and its negative part. -/
theorem zpow_mul_toNat {a : ℚ} (ha : a ≠ 0) (z : Int) :
    a ^ z * a ^ (-z).toNat = a ^ z.toNat := by
  rw [← zpow_natCast, ← zpow_natCast, ← zpow_add₀ ha]
  congr 1
  omega

/-- A power of ten that fills its mantissa. -/
def isPowerOfTen (i : Nat) : UnpackedFloat → Bool
  | .finite .positive a f _ =>
    decide (2 ^ 52 ≤ a) && a * 2 ^ f.toNat == 10 ^ i * 2 ^ (-f).toNat
  | _ => false

/-- The powers of ten in the table. -/
theorem isPowerOfTen_table : ∀ i : Fin Float.exactlyRepresentablePowersOfTen.size,
    isPowerOfTen i Float.exactlyRepresentablePowersOfTen[i].toModel.unpack = true := by
  decide +kernel

theorem unpack_powersOfTen {i : Nat} (hi : i < Float.exactlyRepresentablePowersOfTen.size) :
    ∃ a f, ∃ ha : 0 < a,
      Float.exactlyRepresentablePowersOfTen[i].toModel.unpack = .finite .positive a f ha ∧
      (a : ℚ) * 2 ^ f = 10 ^ i ∧ 2 ^ 52 ≤ a := by
  have entry := isPowerOfTen_table ⟨i, hi⟩
  unfold isPowerOfTen at entry
  split at entry
  · rename_i a f ha unpacked
    simp only [Bool.and_eq_true, decide_eq_true_eq, beq_iff_eq] at entry
    obtain ⟨full, power⟩ := entry
    refine ⟨a, f, ha, unpacked, ?_, full⟩
    have power : (a : ℚ) * 2 ^ f.toNat = 10 ^ i * 2 ^ (-f).toNat := by exact_mod_cast power
    have unit : (2 : ℚ) ^ (-f).toNat ≠ 0 := by positivity
    refine mul_right_cancel₀ unit ?_
    rw [mul_assoc, zpow_mul_toNat two_ne_zero, power]
  · cases entry

/-- **A decimal is read as the number whose basin it is in.** -/
theorem ofDecimal_of_holds (canonical : Canonical m e) {n : Nat} {x : Int}
    (holds : (basin m e).Holds (n * 10 ^ x)) :
    ofDecimal n x = .ofModel (.pack (.finite .positive m e canonical.pos)) := by
  obtain ⟨pos, -⟩ := exponent_of_holds canonical holds
  rw [ofDecimal, Float.ofScientific]
  split
  · rename_i fast
    obtain ⟨a, f, ha, first, hn, fulla⟩ := unpack_toFloat pos fast.1
    have small : x.natAbs < Float.exactlyRepresentablePowersOfTen.size := by
      have : Float.exactlyRepresentablePowersOfTen.size = 23 := rfl
      omega
    obtain ⟨b, g, hb, second, power, fullb⟩ := unpack_powersOfTen small
    have exponent : (10 : ℚ) ^ x = if x < 0 then (10 ^ x.natAbs)⁻¹ else 10 ^ x.natAbs := by
      split
      · rw [← zpow_natCast, ← zpow_neg]
        congr 1
        omega
      · rw [← zpow_natCast]
        congr 1
        omega
    rw [exponent] at holds
    dsimp only
    by_cases below : x < 0
    · rw [if_pos below, ← hn, ← power, ← div_eq_mul_inv] at holds
      rw [if_pos (by simpa using below)]
      show Float.ofModel (.pack (UnpackedFloat.div _ _ _)) = _
      rw [first, second, div_of_holds canonical ha hb holds]
      rfl
    · rw [if_neg below, ← hn, ← power] at holds
      rw [if_neg (by simpa using below)]
      show Float.ofModel (.pack (UnpackedFloat.mul _ _ _)) = _
      rw [first, second, mul_of_holds canonical ha hb ?_ holds]
      · rfl
      · have long : 2 ^ 104 ≤ a * b := by
          calc 2 ^ 104 = 2 ^ 52 * 2 ^ 52 := by norm_num
            _ ≤ a * b := Nat.mul_le_mul fulla fullb
        have bit := (Nat.le_log2 (by omega)).mpr long
        rw [targetExponent_eq, totalExponent]
        omega
  · have whole :
        (if decide (x < 0) = true then Int.negOfNat x.natAbs else .ofNat x.natAbs) = x := by
      split <;> rename_i sign <;> simp only [decide_eq_true_eq] at sign
      · rw [Int.negOfNat_eq, Int.ofNat_eq_natCast]
        omega
      · show (x.natAbs : Int) = x
        omega
    dsimp only
    rw [whole, Float.Model.ofScientific, ofScientific_of_holds canonical holds]

end Number

end FormulaSheet
