import FormulaSheet.Double
import FormulaSheet.Proofs.Packing

/-!
# Numbers and their bits

Bits and numbers are the same thing but for NaNs: a number is found again from
its bits, bits are found again from their number unless that is a NaN, and a
sign is flipped in either place.  Bits that are found again from their number
are called regular; among those of NaNs these are the bits that every text of a
NaN is read as.

* `Double.float_of`, `Double.of_float` — from one to the other and back;
* `Double.float_neg` — flipping the sign bit negates the number;
* `Double.Regular` — the bits of a NaN are those of its text;
* `Double.place_injective` — no two bits have one place.
-/

namespace FormulaSheet.Double

open Float.Model Float.Model.UnpackedFloat

/-- A number is found again from its bits. -/
@[simp] theorem float_of (x : Float) : (of x).float = x :=
  congrArg Float.ofModel (Number.pack_unpack x.toModel)

/-- Different numbers have different bits. -/
theorem of_injective : Function.Injective of := Function.LeftInverse.injective float_of

/-- The bits of a number are those of a NaN if it is one. -/
@[simp] theorem isNaN_of (x : Float) : (of x).isNaN = x.isNaN := by
  rw [isNaN, float_of]

/-- Whether bits are those of a NaN is seen from their parts. -/
theorem isNaN_eq_unpack (x : Double) :
    x.isNaN = (UnpackedFloat.unpack Format.binary64 x.bits.toBitVec).isNaN :=
  congrArg UnpackedFloat.isNaN (Number.unpack_ofBits x.bits)

/-- Bits are found again from their number, unless it is a NaN. -/
theorem of_float {x : Double} (h : x.isNaN = false) : of x.float = x := by
  rw [isNaN_eq_unpack] at h
  exact congrArg Double.mk (UInt64.toBitVec_inj.mp (Number.pack_unpack_bits h))

/-- No two bits have one place in the total order. -/
theorem place_injective : Function.Injective place := by
  rintro ⟨b⟩ ⟨c⟩ h
  refine congrArg Double.mk (UInt64.toNat_inj.mp ?_)
  simp only [place, Nat.pow_eq] at h
  split at h <;> split at h <;> omega

section Sign

/-- Flipping the sign bit negates what is unpacked. -/
theorem unpack_neg (x : Double) :
    UnpackedFloat.unpack Format.binary64 (-x).bits.toBitVec =
      (UnpackedFloat.unpack Format.binary64 x.bits.toBitVec).neg := by
  obtain ⟨s, p, f, parts⟩ := Number.exists_packComponents x.bits.toBitVec
  have flipped : (x.bits ^^^ signBit).toBitVec = packComponents Format.binary64 (-s) p f := by
    have sign : signBit.toBitVec = packComponents Format.binary64 .negative 0#11 0#52 := by decide
    rw [UInt64.toBitVec_xor, sign, ← parts, packComponents, packComponents, packComponents]
    rw [BitVec.xor_append, BitVec.xor_append, BitVec.xor_zero, BitVec.xor_zero]
    cases s <;> rfl
  change UnpackedFloat.unpack Format.binary64 (x.bits ^^^ signBit).toBitVec = _
  rw [flipped, ← parts, Number.unpack_packComponents, Number.unpack_packComponents]
  split
  · split <;> rfl
  · split
    · split <;> rfl
    · rfl

/-- Flipping the sign bit negates the number. -/
@[simp] theorem float_neg (x : Double) : (-x).float = -x.float := by
  show _ = Float.ofModel (.pack (Float.Model.ofBits x.bits).unpack.neg)
  rw [Number.unpack_ofBits]
  exact congrArg (fun u => Float.ofModel (.pack u)) (unpack_neg x)

/-- A NaN stays one if its sign is flipped. -/
@[simp] theorem isNaN_neg (x : Double) : (-x).isNaN = x.isNaN := by
  rw [isNaN_eq_unpack, isNaN_eq_unpack, unpack_neg]
  cases UnpackedFloat.unpack Format.binary64 x.bits.toBitVec <;> rfl

end Sign

section Regular

/-- The bits that a number has once it is read from its text. -/
def regular (x : Double) : Double := .of x.float

/-- The bits are found again from their number. -/
def Regular (x : Double) : Prop := x.regular = x

instance (x : Double) : Decidable x.Regular := inferInstanceAs (Decidable (_ = _))

@[simp] theorem float_regular (x : Double) : x.regular.float = x.float := float_of _

@[simp] theorem regular_of (x : Float) : (of x).Regular := congrArg of (float_of x)

@[simp] theorem regular_regular (x : Double) : x.regular.Regular := regular_of _

/-- Every number is found again but for some of the NaNs. -/
theorem regular_of_not_isNaN {x : Double} (h : x.isNaN = false) : x.Regular := of_float h

end Regular

/-- A result that is no NaN is not up to the machine. -/
theorem settle_of_not_isNaN {x : Float} (h : x.isNaN = false) (choose : NanChoice)
    (operation : String) (operands : List Double) :
    choose.settle operation operands x = .of x := by
  rw [NanChoice.settle, h, if_neg Bool.false_ne_true]

/-- The result of an operation is the number it is, whatever NaN that may be. -/
@[simp] theorem float_settle (choose : NanChoice) (operation : String) (operands : List Double)
    (x : Float) : (choose.settle operation operands x).float = x := by
  unfold NanChoice.settle
  split
  · rename_i nan
    have chosen := (choose operation operands).property
    rw [isNaN, Float.isNaN_eq_decide_eq_nan, decide_eq_true_eq] at chosen
    rw [Float.isNaN_eq_decide_eq_nan, decide_eq_true_eq] at nan
    rw [chosen, nan]
  · exact float_of x

end FormulaSheet.Double
