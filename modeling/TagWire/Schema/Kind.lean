import TagWire.Wire.Kind

/-!
The kinds of value that a field can be declared with. A kind fixes the wire kind of its values;
enumerations and messages are named, and the name is looked up in the schema.
-/

namespace TagWire

/-- What the values of a field are. -/
inductive Kind where
  | int32
  | int64
  | uint32
  | uint64
  | sint32
  | sint64
  | bool
  | enum (type : String)
  | fixed32
  | sfixed32
  | float
  | fixed64
  | sfixed64
  | double
  | string
  | bytes
  | message (type : String)
  deriving DecidableEq, Repr, Inhabited

namespace Kind

/-- The wire kind of one value. -/
def wireKind : Kind → WireKind
  | int32 | int64 | uint32 | uint64 | sint32 | sint64 | bool | enum _ => .varint
  | fixed32 | sfixed32 | float => .fixed32
  | fixed64 | sfixed64 | double => .fixed64
  | string | bytes | message _ => .lengthDelimited

/-- Whether many values may share one length-delimited unit. A value that has a length of its own
may not. -/
def isPackable (kind : Kind) : Bool := kind.wireKind != .lengthDelimited

/-- The message type that a kind refers to. -/
def message? : Kind → Option String
  | message type => some type
  | _ => none

/-- Whether values of this kind are records. -/
def isMessage (kind : Kind) : Bool := kind.message?.isSome

/-- A kind as it is written in a declaration. -/
def text : Kind → String
  | int32 => "int32"
  | int64 => "int64"
  | uint32 => "uint32"
  | uint64 => "uint64"
  | sint32 => "sint32"
  | sint64 => "sint64"
  | bool => "bool"
  | enum type => "enum " ++ type
  | fixed32 => "fixed32"
  | sfixed32 => "sfixed32"
  | float => "float"
  | fixed64 => "fixed64"
  | sfixed64 => "sfixed64"
  | double => "double"
  | string => "string"
  | bytes => "bytes"
  | message type => "message " ++ type

end Kind

/-- How many values a field may hold, and whether it has to hold one. -/
inductive Cardinality where
  | required
  | optional
  | repeated
  deriving DecidableEq, Repr, Inhabited

/-- A cardinality as it is written in a declaration. -/
def Cardinality.text : Cardinality → String
  | required => "required"
  | optional => "optional"
  | repeated => "repeated"

end TagWire
