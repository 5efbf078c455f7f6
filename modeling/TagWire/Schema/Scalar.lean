import TagWire.Schema.Kind
import TagWire.Wire.Varint
import TagWire.Wire.Word
import TagWire.Wire.ZigZag

/-!
Scalars are the values that are not records. A floating-point number is held by its bits, so that
every pattern, those of NaN included, passes through unchanged.
-/

namespace TagWire

/-- A value that is not a record; one constructor for each kind. -/
inductive Scalar where
  | int32 (n : Int32)
  | int64 (n : Int64)
  | uint32 (n : UInt32)
  | uint64 (n : UInt64)
  | sint32 (n : Int32)
  | sint64 (n : Int64)
  | bool (b : Bool)
  | enum (number : Int32)
  | fixed32 (n : UInt32)
  | sfixed32 (n : Int32)
  | float (bits : UInt32)
  | fixed64 (n : UInt64)
  | sfixed64 (n : Int64)
  | double (bits : UInt64)
  | string (text : String)
  | bytes (content : Bytes)
  deriving DecidableEq, Repr

namespace Scalar

/-- The kind of a scalar by its short name, which leaves out the enumeration. -/
def kindName : Scalar → String
  | int32 _ => "int32"
  | int64 _ => "int64"
  | uint32 _ => "uint32"
  | uint64 _ => "uint64"
  | sint32 _ => "sint32"
  | sint64 _ => "sint64"
  | bool _ => "bool"
  | enum _ => "enum"
  | fixed32 _ => "fixed32"
  | sfixed32 _ => "sfixed32"
  | float _ => "float"
  | fixed64 _ => "fixed64"
  | sfixed64 _ => "sfixed64"
  | double _ => "double"
  | string _ => "string"
  | bytes _ => "bytes"

/-- Whether a scalar is of a kind. Any number is of any enumeration here: whether it is declared
is for the schema to say. -/
def isOfKind : Scalar → Kind → Bool
  | int32 _, .int32 => true
  | int64 _, .int64 => true
  | uint32 _, .uint32 => true
  | uint64 _, .uint64 => true
  | sint32 _, .sint32 => true
  | sint64 _, .sint64 => true
  | bool _, .bool => true
  | enum _, .enum _ => true
  | fixed32 _, .fixed32 => true
  | sfixed32 _, .sfixed32 => true
  | float _, .float => true
  | fixed64 _, .fixed64 => true
  | sfixed64 _, .sfixed64 => true
  | double _, .double => true
  | string _, .string => true
  | bytes _, .bytes => true
  | _, _ => false

/-- The number of a signed 32-bit scalar, an enumeration's included. -/
def int32? : Scalar → Option Int32
  | int32 n | sint32 n | sfixed32 n | enum n => some n
  | _ => none

/-- The number of a signed 64-bit scalar. -/
def int64? : Scalar → Option Int64
  | int64 n | sint64 n | sfixed64 n => some n
  | _ => none

/-- The number of an unsigned 32-bit scalar. -/
def uint32? : Scalar → Option UInt32
  | uint32 n | fixed32 n => some n
  | _ => none

/-- The number of an unsigned 64-bit scalar. -/
def uint64? : Scalar → Option UInt64
  | uint64 n | fixed64 n => some n
  | _ => none

/-- The truth value of a boolean. -/
def bool? : Scalar → Option Bool
  | bool b => some b
  | _ => none

/-- The bits of a single-precision number. -/
def float? : Scalar → Option UInt32
  | float bits => some bits
  | _ => none

/-- The bits of a double-precision number. -/
def double? : Scalar → Option UInt64
  | double bits => some bits
  | _ => none

/-- The text of a string. -/
def string? : Scalar → Option String
  | string text => some text
  | _ => none

/-- The content of a byte string. -/
def bytes? : Scalar → Option Bytes
  | bytes content => some content
  | _ => none

/-- The UTF-8 bytes of a text. -/
def utf8 (text : String) : Bytes := text.toUTF8.data.toList

/-- Bytes behind their length. -/
def delimited (content : Bytes) : Bytes := Varint.encode content.length ++ content

/-- The bytes of a scalar in a unit, after the key. A signed number that is not zig-zag coded is
sign-extended to 64 bits first, so a negative one takes ten bytes. -/
def payload : Scalar → Bytes
  | int32 n | enum n => Varint.encode n.toInt64.toUInt64.toNat
  | int64 n => Varint.encode n.toUInt64.toNat
  | uint32 n => Varint.encode n.toNat
  | uint64 n => Varint.encode n.toNat
  | sint32 n => Varint.encode (ZigZag.encode32 n).toNat
  | sint64 n => Varint.encode (ZigZag.encode64 n).toNat
  | bool b => [if b then 1 else 0]
  | fixed32 n => Word.encode 4 n.toNat
  | sfixed32 n => Word.encode 4 n.toUInt32.toNat
  | float bits => Word.encode 4 bits.toNat
  | fixed64 n => Word.encode 8 n.toNat
  | sfixed64 n => Word.encode 8 n.toUInt64.toNat
  | double bits => Word.encode 8 bits.toNat
  | string text => delimited (utf8 text)
  | bytes content => delimited content

end Scalar

end TagWire
