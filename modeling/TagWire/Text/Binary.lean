/-!
Binary floating-point formats: what a bit pattern stands for, and the pattern of a single-precision
number in double precision. A finite number is a significand times a power of two.
-/

namespace TagWire

/-- The widths of the fraction and the exponent of a format. -/
structure FloatFormat where
  fractionBits : Nat
  exponentBits : Nat
  deriving DecidableEq, Repr

/-- What a bit pattern stands for. -/
inductive FloatClass where
  | nan
  | infinite (negative : Bool)
  /-- The number `significand * 2 ^ exponent`. It is `narrowBelow` if the next smaller number is
  nearer than the next larger one. -/
  | finite (negative : Bool) (significand : Nat) (exponent : Int) (narrowBelow : Bool)
  deriving DecidableEq, Repr

namespace FloatFormat

/-- The 32-bit format. -/
def single : FloatFormat := ⟨23, 8⟩

/-- The 64-bit format. -/
def double : FloatFormat := ⟨52, 11⟩

/-- What is subtracted from a stored exponent. -/
def bias (format : FloatFormat) : Nat := (1 <<< (format.exponentBits - 1)) - 1

/-- The stored fraction. -/
def fraction (format : FloatFormat) (bits : Nat) : Nat := bits % (1 <<< format.fractionBits)

/-- The stored exponent. -/
def stored (format : FloatFormat) (bits : Nat) : Nat :=
  (bits >>> format.fractionBits) % (1 <<< format.exponentBits)

/-- Whether the sign bit is set. -/
def isNegative (format : FloatFormat) (bits : Nat) : Bool :=
  (bits >>> (format.fractionBits + format.exponentBits)) % 2 == 1

/-- What a bit pattern stands for. -/
def classify (format : FloatFormat) (bits : Nat) : FloatClass :=
  let fraction := format.fraction bits
  let stored := format.stored bits
  let negative := format.isNegative bits
  if stored = (1 <<< format.exponentBits) - 1 then
    if fraction = 0 then .infinite negative else .nan
  else if stored = 0 then
    .finite negative fraction (1 - (format.bias + format.fractionBits : Int)) false
  else
    .finite negative (fraction + (1 <<< format.fractionBits))
      (stored - (format.bias + format.fractionBits : Int)) (fraction = 0 && 1 < stored)

end FloatFormat

/-- The double-precision pattern of the number that a single-precision pattern stands for; none if
that is not finite. A number too small for a leading bit in single precision gets one. -/
def widen? (bits : UInt32) : Option UInt64 :=
  match FloatFormat.single.classify bits.toNat with
  | .finite negative significand exponent _ =>
      let sign := if negative then 1 <<< 63 else 0
      if significand = 0 then some (UInt64.ofNat sign)
      else
        let width := Nat.log2 significand
        let stored := (exponent + width + 1023).toNat
        let fraction := (significand - (1 <<< width)) <<< (52 - width)
        some (UInt64.ofNat (sign + (stored <<< 52) + fraction))
  | _ => none

end TagWire
