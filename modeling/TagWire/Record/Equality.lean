import TagWire.Record.Basic

/-!
Sameness of values, with floating-point numbers compared as numbers: a NaN is the same as nothing,
itself included, and the two zeros are the same. Records are the same if their types have one name
and their slots and unknown units agree; which schema they were made with does not matter.
-/

namespace TagWire

/-- Whether a single-precision pattern is no number. -/
def isNaN32 (bits : UInt32) : Bool := (bits &&& 0x7fffffff) > 0x7f800000

/-- Whether a double-precision pattern is no number. -/
def isNaN64 (bits : UInt64) : Bool := (bits &&& 0x7fffffffffffffff) > 0x7ff0000000000000

/-- Whether two scalars are the same. -/
def Scalar.same : Scalar → Scalar → Bool
  | float a, float b => !isNaN32 a && !isNaN32 b && (a == b || (a <<< 1 == 0 && b <<< 1 == 0))
  | double a, double b => !isNaN64 a && !isNaN64 b && (a == b || (a <<< 1 == 0 && b <<< 1 == 0))
  | a, b => a == b

mutual

/-- Whether two values are the same. -/
def Value.same : Value → Value → Bool
  | .scalar a, .scalar b => a.same b
  | .message a, .message b => a.same b
  | _, _ => false

/-- Whether two slots hold the same. -/
def Slot.same : Slot → Slot → Bool
  | .single a, .single b => a.same b
  | .repeated as, .repeated bs => sameValues as bs
  | _, _ => false

/-- Whether two lists hold the same values in the same order. -/
def sameValues : List Value → List Value → Bool
  | [], [] => true
  | a :: as, b :: bs => a.same b && sameValues as bs
  | _, _ => false

/-- Whether two maps hold the same slots at the same tags. -/
def sameSlots : List (Nat × Slot) → List (Nat × Slot) → Bool
  | [], [] => true
  | (tag, slot) :: rest, (other, held) :: more =>
      tag == other && slot.same held && sameSlots rest more
  | _, _ => false

/-- Whether two records are the same. -/
def Record.same : Record → Record → Bool
  | ⟨_, type, slots, unknown⟩, ⟨_, otherType, otherSlots, otherUnknown⟩ =>
      type.name == otherType.name && sameSlots slots otherSlots && unknown == otherUnknown

end

end TagWire
