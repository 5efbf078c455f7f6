import TagWire.Cursor.Token
import TagWire.Schema.Scalar

/-!
Reading a scalar by its kind. The kinds with a length of their own are not here: where they end is
not part of their value.
-/

namespace TagWire

namespace Kind

/-- How a value of a packable kind is read. A number that is too wide for its kind loses its high
bits. -/
def reader? : Kind → Option (Read Scalar)
  | int32 => some (do return .int32 (UInt32.ofNat (← Cursor.takeVarint)).toInt32)
  | int64 => some (do return .int64 (UInt64.ofNat (← Cursor.takeVarint)).toInt64)
  | uint32 => some (do return .uint32 (UInt32.ofNat (← Cursor.takeVarint)))
  | uint64 => some (do return .uint64 (UInt64.ofNat (← Cursor.takeVarint)))
  | sint32 => some (do return .sint32 (ZigZag.decode32 (UInt32.ofNat (← Cursor.takeVarint))))
  | sint64 => some (do return .sint64 (ZigZag.decode64 (UInt64.ofNat (← Cursor.takeVarint))))
  | bool => some (do return .bool ((← Cursor.takeVarint) != 0))
  | enum _ => some (do return .enum (UInt32.ofNat (← Cursor.takeVarint)).toInt32)
  | fixed32 => some (do return .fixed32 (← Cursor.takeFixed32))
  | sfixed32 => some (do return .sfixed32 (← Cursor.takeFixed32).toInt32)
  | float => some (do return .float (← Cursor.takeFixed32))
  | fixed64 => some (do return .fixed64 (← Cursor.takeFixed64))
  | sfixed64 => some (do return .sfixed64 (← Cursor.takeFixed64).toInt64)
  | double => some (do return .double (← Cursor.takeFixed64))
  | string | bytes | message _ => none

end Kind

/-- Step over the payload of a unit that is not understood. -/
def WireKind.skip : WireKind → Read Unit
  | varint => do let _ ← Cursor.takeVarint
  | fixed64 => do let _ ← Cursor.take 8
  | lengthDelimited => do let _ ← Cursor.takeDelimited
  | fixed32 => do let _ ← Cursor.take 4

end TagWire
