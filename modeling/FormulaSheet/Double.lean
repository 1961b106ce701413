import FormulaSheet.Number.Exact

/-!
# Numbers by their bits

`Float` has one NaN, a machine has many.  They are told apart in one place, the
total order that sorting goes by: a NaN whose sign is negative comes before
every number, any other NaN behind every number.  A `Double` is the bits of a
number, and `Double.float` is the number for all purposes but this.

The sign of a NaN is flipped and dropped like that of any number.  Which NaN
every other operation gives is up to the machine (`NanChoice`).
-/

namespace FormulaSheet

/-- A binary64 number, given by its bits. -/
structure Double where
  bits : UInt64
deriving DecidableEq

namespace Double

/-- The number that the bits are of. -/
def float (x : Double) : Float := Float.ofBits x.bits

/-- The bits of a number; for NaN those of a quiet one without a sign, which
is the NaN that texts and literals are read as. -/
def of (x : Float) : Double := ⟨x.toBits⟩

instance {n : Nat} : OfNat Double n := ⟨of (OfNat.ofNat n)⟩

instance : OfScientific Double := ⟨fun m s e => of (OfScientific.ofScientific m s e)⟩

/-- Whether the number is a NaN. -/
def isNaN (x : Double) : Bool := x.float.isNaN

/-- The bit that holds the sign. -/
def signBit : UInt64 := 0x8000000000000000

instance : Neg Double := ⟨fun x => ⟨x.bits ^^^ signBit⟩⟩

/-- The number without its sign. -/
def abs (x : Double) : Double := ⟨x.bits &&& ~~~signBit⟩

/-- The place of a number in the total order: the negative NaNs, −∞, the
negative numbers, −0, +0, the positive numbers, +∞, the other NaNs. -/
def place (x : Double) : Int :=
  let n := x.bits.toNat
  if n < Nat.pow 2 63 then n else -((n - Nat.pow 2 63 : Nat) : Int) - 1

end Double

/-- Which NaN an operation, by its name, gives for operands where its result is
undefined.  Processors and compilers differ in the sign of the NaN. -/
abbrev NanChoice := String → List Double → {x : Double // x.isNaN = true}

/-- The bits of a result. -/
def NanChoice.settle (choose : NanChoice) (operation : String) (operands : List Double)
    (result : Float) : Double :=
  if result.isNaN then (choose operation operands).val else .of result

end FormulaSheet
