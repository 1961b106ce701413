import Mathlib
import FormulaSheet.Number.Text

/-!
# The bits of numbers

A number that is no zero is a mantissa and an exponent, `mantissa · 2 ^ exponent`,
in canonical form: the mantissa has all its bits, or the exponent is the least.
Numbers are their bits, and so they are what is unpacked from these.

* `Number.Canonical` — the mantissas and exponents of numbers;
* `Number.pack_unpack` — a number is what is unpacked from its bits;
* `Number.unpack_ofBits` — any bits, those of any NaN too, are a number's;
* `Number.unpack_pack_finite` — so is every canonical mantissa and exponent.
-/

namespace FormulaSheet.Number

open Float.Model Float.Model.UnpackedFloat

/-- The mantissas and exponents that numbers have. -/
structure Canonical (m : Nat) (e : Int) : Prop where
  pos : 0 < m
  fits : m < 2 ^ 53
  least : -1074 ≤ e
  greatest : e ≤ 971
  full : 2 ^ 52 ≤ m ∨ e = -1074

variable {m : Nat} {e : Int}

/-- Bits are packed again from their parts. -/
theorem packComponents_unpack (b : BitVec Format.binary64.numBits) :
    packComponents Format.binary64 (Sign.ofBitVec (unpackSign b)) (unpackExponent b)
      (unpackMantissa b) = b := by
  have sign : (Sign.ofBitVec (unpackSign b)).toBitVec = unpackSign b := by
    generalize unpackSign b = c
    revert c
    decide
  rw [packComponents, sign]
  refine BitVec.eq_of_getLsbD_eq fun i hi => ?_
  have hi : i < 64 := hi
  simp only [unpackSign, unpackExponent, unpackMantissa, BitVec.getLsbD_append,
    BitVec.getLsbD_cast, BitVec.getLsbD_extractLsb]
  split
  · rw [decide_eq_true (by omega), Nat.zero_add, Bool.true_and]
  · split
    · rw [decide_eq_true (by omega), Bool.true_and]
      congr 1
      omega
    · rw [decide_eq_true (by omega), Bool.true_and]
      congr 1
      omega

/-- The sign is found again among the bits. -/
theorem unpackSign_packComponents (sign : Sign) (exponent : BitVec 11) (mantissa : BitVec 52) :
    Sign.ofBitVec (unpackSign (packComponents Format.binary64 sign exponent mantissa)) = sign := by
  have bit : unpackSign (packComponents Format.binary64 sign exponent mantissa) =
      sign.toBitVec := by
    refine BitVec.eq_of_getLsbD_eq fun i hi => ?_
    simp only [unpackSign, packComponents, BitVec.getLsbD_append, BitVec.getLsbD_cast,
      BitVec.getLsbD_extractLsb]
    rw [decide_eq_true (by omega), if_neg (by omega), if_neg (by omega), Bool.true_and]
    congr 1
    omega
  rw [bit]
  cases sign <;> rfl


/-- Bits are a sign, a biased exponent and a fraction. -/
theorem exists_packComponents (b : BitVec Format.binary64.numBits) :
    ∃ (s : Sign) (p : BitVec 11) (f : BitVec 52),
      packComponents Format.binary64 s p f = b :=
  ⟨_, _, _, packComponents_unpack b⟩

/-- The number that the three parts of its bits make. -/
theorem unpack_packComponents (s : Sign) (x : BitVec 11) (f : BitVec 52) :
    UnpackedFloat.unpack Format.binary64 (packComponents Format.binary64 s x f) =
      if x = -1#11 then if f = 0#52 then .infinity s else .notANumber
      else if x = 0#11 then
        if h : f = 0#52 then .zero s
        else .finite s f.toNat (-1074) (Nat.pos_of_ne_zero (by simpa [BitVec.toNat_eq] using h))
      else .finite s (2 ^ 52 + f.toNat) (x.toNat - 1075) (by omega) := by
  have bias : (Format.binary64.exponentBias : Int) = 1023 := by decide
  have lead : (1#1 ++ f).toNat = 2 ^ 52 + f.toNat := by
    rw [BitVec.toNat_append, ← Nat.shiftLeft_add_eq_or_of_lt f.isLt]
    rfl
  unfold UnpackedFloat.unpack
  simp only [unpackSign_packComponents, unpackExponent_packComponents,
    unpackMantissa_packComponents, bias, lead]
  by_cases top : x = -1#11
  · rw [if_pos top, if_pos top]
  · rw [if_neg top, if_neg top]
    by_cases low : x = 0#11
    · subst low
      rfl
    · rw [if_neg low, if_neg low]
      congr 1

/-- The parts of a number that is finite are canonical. -/
theorem canonical_of_unpack {x : Float.Model} {s : Sign} {h : 0 < m}
    (hx : x.unpack = .finite s m e h) : Canonical m e := by
  obtain ⟨s, p, f, parts⟩ := exists_packComponents x.toBits.toBitVec
  rw [Float.Model.unpack, ← parts, unpack_packComponents] at hx
  have below := p.isLt
  have fits := f.isLt
  split at hx
  · split at hx <;> cases hx
  · rename_i top
    have top : p.toNat ≠ 2047 := fun eq => top (BitVec.eq_of_toNat_eq eq)
    split at hx
    · split at hx
      · cases hx
      · cases hx
        exact ⟨h, by omega, by omega, by omega, .inr rfl⟩
    · rename_i low
      have low : p.toNat ≠ 0 := fun eq => low (BitVec.eq_of_toNat_eq eq)
      cases hx
      exact ⟨h, by omega, by omega, by omega, .inl (by omega)⟩

/-- The bits of a canonical number. -/
theorem pack_finite (canonical : Canonical m e) (s : Sign) :
    UnpackedFloat.pack Format.binary64 (.finite s m e canonical.pos) =
      packComponents Format.binary64 s
        (if m < 2 ^ 52 then 0#11 else BitVec.ofNat 11 (e + 1075).toNat) (BitVec.ofNat 52 m) := by
  have bias : (Format.binary64.exponentBias : Int) = 1023 := by decide
  have bits : Format.binary64.mantissaBits = 53 := rfl
  obtain ⟨pos, fits, least, greatest, full⟩ := canonical
  have range : (e + 1023 + (52 : Nat)).toNat + 1 < 2 ^ 11 := by omega
  rw [UnpackedFloat.pack]
  simp only [bias, bits]
  rw [if_neg (by omega)]
  by_cases normal : m < 2 ^ 52
  · have short : m.log2 < 52 := (Nat.log2_lt (Nat.ne_of_gt pos)).mpr normal
    rw [if_neg (by omega), if_pos normal]
  · have long : 52 ≤ m.log2 := (Nat.le_log2 (Nat.ne_of_gt pos)).mpr (by omega)
    have short : m.log2 < 53 := (Nat.log2_lt (Nat.ne_of_gt pos)).mpr fits
    rw [if_pos (by omega), if_neg normal]
    congr 2
    omega

/-- Canonical parts are found again once they are packed. -/
theorem unpack_pack_finite (canonical : Canonical m e) (s : Sign) :
    (Float.Model.pack (.finite s m e canonical.pos)).unpack = .finite s m e canonical.pos := by
  rw [Float.Model.unpack, Float.Model.pack]
  show UnpackedFloat.unpack Format.binary64 (UnpackedFloat.pack _ _) = _
  rw [pack_finite canonical s, unpack_packComponents]
  obtain ⟨pos, fits, least, greatest, full⟩ := canonical
  by_cases normal : m < 2 ^ 52
  · have whole : (BitVec.ofNat 52 m).toNat = m := Nat.mod_eq_of_lt normal
    have some : BitVec.ofNat 52 m ≠ 0#52 := by
      intro none
      rw [none] at whole
      exact absurd whole (Nat.ne_of_lt pos)
    rw [if_pos normal, if_neg (by decide), if_pos rfl, dif_neg some]
    simp only [whole]
    congr 1
    omega
  · have part : (BitVec.ofNat 52 m).toNat = m - 2 ^ 52 := by
      rw [BitVec.toNat_ofNat]
      omega
    have place : (BitVec.ofNat 11 (e + 1075).toNat).toNat = (e + 1075).toNat :=
      Nat.mod_eq_of_lt (by omega)
    have top : BitVec.ofNat 11 (e + 1075).toNat ≠ -1#11 := by
      intro eq
      rw [eq] at place
      have : (-1#11).toNat = 2047 := by decide
      omega
    have low : BitVec.ofNat 11 (e + 1075).toNat ≠ 0#11 := by
      intro eq
      rw [eq] at place
      have : (0#11).toNat = 0 := rfl
      omega
    have whole : 2 ^ 52 + (BitVec.ofNat 52 m).toNat = m := by omega
    have exponent : ((BitVec.ofNat 11 (e + 1075).toNat).toNat : Int) - 1075 = e := by omega
    rw [if_neg normal, if_neg top, if_neg low]
    simp only [whole, exponent]

/-- The number of an unpacked one. -/
theorem pack_unpack (x : Float.Model) : Float.Model.pack x.unpack = x := by
  obtain ⟨bits, valid⟩ := x
  suffices UnpackedFloat.pack Format.binary64 (UnpackedFloat.unpack Format.binary64 bits.toBitVec) =
      bits.toBitVec by
    simp only [Float.Model.pack, Float.Model.unpack, this]
  obtain ⟨s, p, f, parts⟩ := exists_packComponents bits.toBitVec
  have mold := valid.eq_packedNaN
  rw [← parts] at mold ⊢
  simp only [unpackExponent_packComponents, unpackMantissa_packComponents] at mold
  rw [unpack_packComponents]
  by_cases top : p = -1#11
  · by_cases none : f = 0#52
    · rw [if_pos top, if_pos none, top, none]
      rfl
    · rw [if_pos top, if_neg none, mold top none]
      rfl
  · rw [if_neg top]
    have top : p.toNat ≠ 2047 := fun eq => top (BitVec.eq_of_toNat_eq eq)
    have below := p.isLt
    have fits := f.isLt
    by_cases low : p = 0#11
    · by_cases none : f = 0#52
      · rw [if_pos low, dif_pos none, low, none]
        rfl
      · have pos : 0 < f.toNat := Nat.pos_of_ne_zero fun eq => none (BitVec.eq_of_toNat_eq eq)
        have canonical : Canonical f.toNat (-1074) :=
          ⟨pos, by omega, by omega, by omega, .inr rfl⟩
        rw [if_pos low, dif_neg none, pack_finite canonical, if_pos fits, BitVec.ofNat_toNat,
          BitVec.setWidth_eq, low]
    · have low' : p.toNat ≠ 0 := fun eq => low (BitVec.eq_of_toNat_eq eq)
      have canonical : Canonical (2 ^ 52 + f.toNat) (p.toNat - 1075) :=
        ⟨by omega, by omega, by omega, by omega, .inl (by omega)⟩
      have place : ((p.toNat : Int) - 1075 + 1075).toNat = p.toNat := by omega
      have part : BitVec.ofNat 52 (2 ^ 52 + f.toNat) = f :=
        BitVec.eq_of_toNat_eq (by rw [BitVec.toNat_ofNat]; omega)
      rw [if_neg low, pack_finite canonical, if_neg (by omega), place, part, BitVec.ofNat_toNat,
        BitVec.setWidth_eq]

/-- Bits that are no NaN's are found again from what they unpack to. -/
theorem pack_unpack_bits {b : UInt64}
    (h : (UnpackedFloat.unpack Format.binary64 b.toBitVec).isNaN = false) :
    UnpackedFloat.pack Format.binary64 (UnpackedFloat.unpack Format.binary64 b.toBitVec) =
      b.toBitVec := by
  have valid : Format.binary64.Valid b.toBitVec := by
    constructor
    intro top some
    obtain ⟨s, p, f, parts⟩ := exists_packComponents b.toBitVec
    rw [← parts] at h top some
    simp only [unpackExponent_packComponents, unpackMantissa_packComponents] at top some
    rw [unpack_packComponents, if_pos top, if_neg some] at h
    cases h
  exact congrArg (fun x : Float.Model => x.toBits.toBitVec) (pack_unpack ⟨b, valid⟩)

/-- Of all bits the number is unpacked that they unpack to. -/
theorem unpack_ofBits (b : UInt64) :
    (Float.Model.ofBits b).unpack = UnpackedFloat.unpack Format.binary64 b.toBitVec := by
  show UnpackedFloat.unpack Format.binary64 (UnpackedFloat.pack Format.binary64 _) = _
  cases h : (UnpackedFloat.unpack Format.binary64 b.toBitVec).isNaN with
  | false => rw [pack_unpack_bits h]
  | true =>
      cases u : UnpackedFloat.unpack Format.binary64 b.toBitVec <;> rw [u] at h <;> cases h
      exact unpack_packComponents .positive _ _

end FormulaSheet.Number
