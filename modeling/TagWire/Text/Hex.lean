import TagWire.Wire.Kind

/-!
Hexadecimal text, in lower case.
-/

namespace TagWire.Hex

/-- A byte as exactly two digits. -/
def byte (b : UInt8) : String :=
  String.ofList [Nat.digitChar (b.toNat / 16), Nat.digitChar (b.toNat % 16)]

/-- Bytes as a bracketed list of two-digit numbers. -/
def list (bytes : Bytes) : String :=
  "[" ++ ", ".intercalate (bytes.map byte) ++ "]"

/-- A number without leading zeros. -/
def number (n : Nat) : String := String.ofList (Nat.toDigits 16 n)

end TagWire.Hex
