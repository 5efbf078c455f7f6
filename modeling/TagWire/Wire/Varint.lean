import TagWire.Wire.Kind

/-!
Variable-length numbers: seven bits to a byte, least significant group first, the high bit set on
every byte but the last. Small numbers take one byte, and a 64-bit number takes at most ten.
-/

namespace TagWire.Varint

/-- Bytes that a 64-bit number may take at most. -/
def maxLength : Nat := 10

/-- The shortest form of a number. -/
def encode (n : Nat) : Bytes :=
  if n < 128 then [UInt8.ofNat n]
  else UInt8.ofNat (n % 128 + 128) :: encode (n / 128)
termination_by n
decreasing_by omega

/-- Length of the shortest form: one byte for each group of seven significant bits. -/
def length (n : Nat) : Nat := Nat.log2 n / 7 + 1

end TagWire.Varint
