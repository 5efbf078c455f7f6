import TagWire.Cursor.Basic
import TagWire.Wire.Varint
import TagWire.Wire.Word

/-!
The tokens of the wire form: varints, fixed words and length-delimited bytes, read from a cursor.
-/

namespace TagWire.Cursor

/-- Read the groups of a varint that may go on for `left` bytes; `seen` holds those before. The
last byte that a 64-bit number may have holds a single bit. -/
def takeGroups : (left : Nat) → (seen : Bytes) → Read Nat
  | 0, _ => throw (.token .tooWide)
  | left + 1, seen => fun cursor =>
      match takeByte cursor with
      | .error _ cursor => .error (.token (.unterminated seen)) cursor
      | .ok byte cursor =>
          if left = 0 ∧ 1 < byte then .error (.token .tooWide) cursor
          else if byte < 128 then .ok byte.toNat cursor
          else
            match takeGroups left (seen ++ [byte]) cursor with
            | .error cause cursor => .error cause cursor
            | .ok rest cursor => .ok (byte.toNat - 128 + 128 * rest) cursor

/-- Read a number of at most 64 bits. A form longer than needed is accepted. -/
def takeVarint : Read Nat := takeGroups Varint.maxLength []

/-- Read a 32-bit word. -/
def takeFixed32 : Read UInt32 := do
  let bytes ← take 4
  return UInt32.ofNat (Word.decode bytes)

/-- Read a 64-bit word. -/
def takeFixed64 : Read UInt64 := do
  let bytes ← take 8
  return UInt64.ofNat (Word.decode bytes)

/-- Read a length and as many bytes. -/
def takeDelimited : Read Bytes := do
  let count ← takeVarint
  take count

end TagWire.Cursor
