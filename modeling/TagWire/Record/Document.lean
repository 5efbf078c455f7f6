import TagWire.Record.Basic
import TagWire.Text.Binary

/-!
A record as a document of maps, arrays and plain values, for formats that know nothing of tags.
Set fields are entries by name, in declaration order; unknown units are left out.
-/

namespace TagWire

/-- A document. -/
inductive Document where
  | null
  | bool (b : Bool)
  | int (n : Int)
  /-- A finite double-precision number, by its bits. -/
  | float (bits : UInt64)
  | string (text : String)
  | array (elements : List Document)
  | map (entries : List (String × Document))

/-- The document of a scalar. A number that is not finite has none but null, and bytes are an
array of numbers. -/
def Scalar.document : Scalar → Document
  | int32 n | sint32 n | sfixed32 n | enum n => .int n.toInt
  | int64 n | sint64 n | sfixed64 n => .int n.toInt
  | uint32 n | fixed32 n => .int n.toNat
  | uint64 n | fixed64 n => .int n.toNat
  | bool b => .bool b
  | float bits => ((widen? bits).map .float).getD .null
  | double bits =>
      match FloatFormat.double.classify bits.toNat with
      | .finite _ _ _ _ => .float bits
      | _ => .null
  | string text => .string text
  | bytes content => .array (content.map (fun byte => .int byte.toNat))

mutual

/-- The document of a value. -/
def Value.document : Value → Document
  | .scalar value => value.document
  | .message record => record.document

/-- The documents of values, in order. -/
def documentsOfValues : List Value → List Document
  | [] => []
  | value :: rest => value.document :: documentsOfValues rest

/-- The document of what a field holds. -/
def Slot.document : Slot → Document
  | .single value => value.document
  | .repeated values => .array (documentsOfValues values)

/-- The documents of slots, by tag. -/
def documentsOfSlots : List (Nat × Slot) → List (Nat × Document)
  | [] => []
  | (tag, slot) :: rest => (tag, slot.document) :: documentsOfSlots rest

/-- The document of a record. -/
def Record.document : Record → Document
  | ⟨_, type, slots, _⟩ =>
      let bySlot := documentsOfSlots slots
      .map (type.fields.filterMap (fun field =>
        (TagMap.find? bySlot field.tag).map (fun document => (field.name, document))))

end

end TagWire
