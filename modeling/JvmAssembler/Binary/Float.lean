import JvmAssembler.Binary.Word

/-!
# Binary floating-point numbers

A number of the IEEE 754 formats `binary32` and `binary64` is held as its bits, so two NaNs with
different payloads are different values and `0.0` differs from `-0.0`. Comparison as numbers is
`ieeeEq`.
-/

namespace JvmAssembler.Binary

/-- Widths of the fields of a format: one sign bit, then exponent, then fraction. -/
structure FloatFormat where
  exponentBits : Nat
  fractionBits : Nat

def FloatFormat.single : FloatFormat := ⟨8, 23⟩

def FloatFormat.double : FloatFormat := ⟨11, 52⟩

/-- What the bits of a number stand for. -/
inductive FloatValue
  | nan
  | infinite (negative : Bool)
  /-- The number `significand * 2 ^ exponent`. `narrowBelow` says that the next smaller magnitude
  is half as far away as the next larger one, as it is at a power of two. -/
  | finite (negative : Bool) (significand : Nat) (exponent : Int) (narrowBelow : Bool)

/-- Reads the fields of `bits`. -/
def FloatFormat.value (format : FloatFormat) (bits : Nat) : FloatValue :=
  let hidden := Nat.pow 2 format.fractionBits
  let largest := Nat.pow 2 format.exponentBits - 1
  let fraction := bits % hidden
  let biased := bits / hidden % (largest + 1)
  let negative := bits / hidden / (largest + 1) % 2 = 1
  let lowest : Int := 1 - (largest / 2 : Nat) - format.fractionBits
  if biased = largest then
    if fraction = 0 then .infinite negative else .nan
  else if biased = 0 then .finite negative fraction lowest false
  else
    .finite negative (hidden + fraction) (lowest + (biased - 1)) (fraction = 0 && 1 < biased)

structure Float32Bits where
  bits : UInt32
  deriving DecidableEq, Hashable

structure Float64Bits where
  bits : UInt64
  deriving DecidableEq, Hashable

def Float32Bits.value (x : Float32Bits) : FloatValue :=
  FloatFormat.single.value x.bits.toNat

def Float64Bits.value (x : Float64Bits) : FloatValue :=
  FloatFormat.double.value x.bits.toNat

/-- Equality of numbers whose bits are equal when `sameBits`: a NaN equals nothing, and the two zeros
are equal. -/
def FloatValue.ieeeEq (sameBits : Bool) : FloatValue → FloatValue → Bool
  | .nan, _ => false
  | _, .nan => false
  | .finite _ 0 _ _, .finite _ 0 _ _ => true
  | _, _ => sameBits

def Float32Bits.ieeeEq (x y : Float32Bits) : Bool :=
  x.value.ieeeEq (x = y) y.value

def Float64Bits.ieeeEq (x y : Float64Bits) : Bool :=
  x.value.ieeeEq (x = y) y.value

instance : Word Float32Bits := ⟨4, fun x => x.bits.toNat, fun n => ⟨UInt32.ofNat n⟩⟩

instance : Word Float64Bits := ⟨8, fun x => x.bits.toNat, fun n => ⟨UInt64.ofNat n⟩⟩

end JvmAssembler.Binary
