import TagWire.Proofs.Wire.Units
import TagWire.Proofs.Wire.ZigZags
import TagWire.Schema.Scalar

/-!
Scalars and the content of their payloads. The kind of a field says which scalar a content spells,
and a scalar of that kind is spelled by its own payload.
-/

namespace TagWire

/-- The scalar of a kind that the content of a payload spells. A number too wide for its kind loses
its high bits; a string has to be UTF-8; a record is no scalar.
-/
def Kind.scalar? : Kind → Bytes → Option Scalar
  | .int32, content => some (.int32 (UInt32.ofNat (Varint.value content)).toInt32)
  | .int64, content => some (.int64 (UInt64.ofNat (Varint.value content)).toInt64)
  | .uint32, content => some (.uint32 (UInt32.ofNat (Varint.value content)))
  | .uint64, content => some (.uint64 (UInt64.ofNat (Varint.value content)))
  | .sint32, content => some (.sint32 (ZigZag.decode32 (UInt32.ofNat (Varint.value content))))
  | .sint64, content => some (.sint64 (ZigZag.decode64 (UInt64.ofNat (Varint.value content))))
  | .bool, content => some (.bool (Varint.value content != 0))
  | .enum _, content => some (.enum (UInt32.ofNat (Varint.value content)).toInt32)
  | .fixed32, content => some (.fixed32 (UInt32.ofNat (Word.decode content)))
  | .sfixed32, content => some (.sfixed32 (UInt32.ofNat (Word.decode content)).toInt32)
  | .float, content => some (.float (UInt32.ofNat (Word.decode content)))
  | .fixed64, content => some (.fixed64 (UInt64.ofNat (Word.decode content)))
  | .sfixed64, content => some (.sfixed64 (UInt64.ofNat (Word.decode content)).toInt64)
  | .double, content => some (.double (UInt64.ofNat (Word.decode content)))
  | .string, content => (String.fromUTF8? ⟨content.toArray⟩).map .string
  | .bytes, content => some (.bytes content)
  | .message _, _ => none

/-- The payload of a delimited content. -/
def Payload.delimited (content : Bytes) : Payload := ⟨Varint.encode content.length, content⟩

/-- The payload that a scalar is written with, its length apart from its content. -/
def Scalar.toPayload : Scalar → Payload
  | .string text => .delimited (utf8 text)
  | .bytes content => .delimited content
  | value => ⟨[], value.payload⟩

theorem Scalar.bytes_toPayload (value : Scalar) : value.toPayload.bytes = value.payload := by
  cases value <;> rfl

theorem Payload.delimited_alone {content : Bytes} (h : content.length < 2 ^ 64)
    : WireKind.lengthDelimited.payload? (delimited content).bytes
      = some (delimited content, []) := by
  refine delimited_payload?_eq_some_iff.mpr ⟨?_, (Varint.value_encode _).symm⟩
  simpa [bytes, delimited] using Varint.take?_encode_append h content

theorem Varint.payload?_encode {n : Nat} (h : n < 2 ^ 64)
    : WireKind.varint.payload? (Payload.bytes ⟨[], encode n⟩) = some (⟨[], encode n⟩, []) := by
  have ht := take?_encode_append h []
  rw [List.append_nil] at ht
  simp [WireKind.payload?, Payload.bytes, ht]

theorem Word.payload?_encode32 (n : Nat)
    : WireKind.fixed32.payload? (Payload.bytes ⟨[], encode 4 n⟩) = some (⟨[], encode 4 n⟩, []) := by
  simp [WireKind.payload?, Payload.bytes, takeExactly?, List.take_of_length_le]

theorem Word.payload?_encode64 (n : Nat)
    : WireKind.fixed64.payload? (Payload.bytes ⟨[], encode 8 n⟩) = some (⟨[], encode 8 n⟩, []) := by
  simp [WireKind.payload?, Payload.bytes, takeExactly?, List.take_of_length_le]

/-- The payload of a scalar is cut off alone by the wire kind of its kind. Only the length of a
string or of bytes could be too large for the wire.
-/
theorem Scalar.payload?_toPayload {value : Scalar} {kind : Kind} (hk : value.isOfKind kind = true)
    (h : value.payload.length < 2 ^ 64)
    : kind.wireKind.payload? value.toPayload.bytes = some (value.toPayload, []) := by
  have delimitedCase {content : Bytes} (hc : (Scalar.delimited content).length < 2 ^ 64)
      : WireKind.lengthDelimited.payload? (Payload.delimited content).bytes
        = some (Payload.delimited content, []) := by
    apply Payload.delimited_alone
    simp only [Scalar.delimited, List.length_append] at hc
    omega
  cases value <;> cases kind <;> simp only [isOfKind, Bool.false_eq_true] at hk
  case int32.int32 n => exact Varint.payload?_encode n.toInt64.toUInt64.toNat_lt
  case int64.int64 n => exact Varint.payload?_encode n.toUInt64.toNat_lt
  case uint32.uint32 n => exact Varint.payload?_encode (Nat.lt_trans n.toNat_lt (by decide))
  case uint64.uint64 n => exact Varint.payload?_encode n.toNat_lt
  case sint32.sint32 n =>
    exact Varint.payload?_encode (Nat.lt_trans (ZigZag.encode32 n).toNat_lt (by decide))
  case sint64.sint64 n => exact Varint.payload?_encode (ZigZag.encode64 n).toNat_lt
  case bool.bool b => cases b <;> rfl
  case enum.enum n _ => exact Varint.payload?_encode n.toInt64.toUInt64.toNat_lt
  case fixed32.fixed32 n => exact Word.payload?_encode32 _
  case sfixed32.sfixed32 n => exact Word.payload?_encode32 _
  case float.float bits => exact Word.payload?_encode32 _
  case fixed64.fixed64 n => exact Word.payload?_encode64 _
  case sfixed64.sfixed64 n => exact Word.payload?_encode64 _
  case double.double bits => exact Word.payload?_encode64 _
  case string.string text => exact delimitedCase h
  case bytes.bytes content => exact delimitedCase h

/-- A signed number of 32 bits survives being spread to 64 and cut down again. -/
theorem toInt32_toInt64 (n : Int32) : n.toInt64.toUInt64.toUInt32.toInt32 = n := by
  apply Int32.toBitVec_inj.mp
  have hs : BitVec.setWidth 32 (n.toBitVec.signExtend 64) = n.toBitVec := by
    apply BitVec.eq_of_getLsbD_eq
    intro i hi
    have h64 : i < 64 := by omega
    rw [BitVec.getLsbD_setWidth, BitVec.getLsbD_signExtend]
    simp [hi, h64]
  simpa using hs

/-- A word of some bytes holds a number up to the width of the word. -/
theorem Word.decode_encode (width n : Nat) : decode (encode width n) = n % 256 ^ width := by
  induction width generalizing n with
  | zero => simp [encode, decode, Nat.mod_one]
  | succ width ih =>
      have hs : 256 ^ (width + 1) = 256 * 256 ^ width := by rw [Nat.pow_succ, Nat.mul_comm]
      simp only [encode, decode, ih, UInt8.toNat_ofNat', hs, Nat.mod_mul]

theorem Word.decode_encode32 (n : UInt32) : UInt32.ofNat (decode (encode 4 n.toNat)) = n := by
  rw [decode_encode, Nat.mod_eq_of_lt (Nat.lt_of_lt_of_le n.toNat_lt (by decide)),
    UInt32.ofNat_toNat]

theorem Word.decode_encode64 (n : UInt64) : UInt64.ofNat (decode (encode 8 n.toNat)) = n := by
  rw [decode_encode, Nat.mod_eq_of_lt (Nat.lt_of_lt_of_le n.toNat_lt (by decide)),
    UInt64.ofNat_toNat]

theorem Scalar.fromUTF8?_utf8 (text : String)
    : String.fromUTF8? ⟨(utf8 text).toArray⟩ = some text := by
  have hb : (⟨(utf8 text).toArray⟩ : ByteArray) = text.toByteArray := by
    simp [utf8]
  rw [hb, String.fromUTF8?, dif_pos text.isValidUTF8]
  rfl

/-- The content of a scalar's payload spells the scalar, for every kind it is of. -/
theorem Scalar.scalar?_toPayload {value : Scalar} {kind : Kind} (hk : value.isOfKind kind = true)
    : kind.scalar? value.toPayload.content = some value := by
  cases value <;> cases kind <;> simp only [isOfKind, Bool.false_eq_true] at hk
  case bool.bool b => cases b <;> rfl
  case string.string text =>
    simp only [Kind.scalar?, toPayload, Payload.delimited, fromUTF8?_utf8, Option.map_some]
  all_goals
    simp [Kind.scalar?, toPayload, payload, Payload.delimited, Varint.value_encode,
      toInt32_toInt64, Word.decode_encode32, Word.decode_encode64,
      ZigZag.decode32_encode32, ZigZag.decode64_encode64]

end TagWire
