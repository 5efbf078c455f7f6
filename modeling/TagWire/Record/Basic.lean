import TagWire.Record.Unknown
import TagWire.Schema.Basic

/-!
A record is an instance of a message type: values by tag, and units that the type does not
declare. Records nest, and each carries the schema and the type that it was made with, so that
records of two schemas can meet in one tree.
-/

namespace TagWire

mutual

/-- One value of a field. -/
inductive Value where
  | scalar (value : Scalar)
  | message (record : Record)

/-- What a set field holds: one value, or the elements of a repeated field in order. -/
inductive Slot where
  | single (value : Value)
  | repeated (values : List Value)

/-- An instance of a message type. A field is unset if there is no slot at its tag. -/
structure Record where
  schema : Schema
  type : MessageType
  slots : List (Nat × Slot)
  unknown : UnknownSet

end

namespace Value

/-- The short name of a value's kind. -/
def kindName : Value → String
  | scalar value => value.kindName
  | message _ => "message"

/-- Whether a value is of a kind. A record is of the kind that names its type. -/
def isOfKind : Value → Kind → Bool
  | scalar value, kind => value.isOfKind kind
  | message record, kind => kind == .message record.type.name

/-- How an error describes a value of the wrong kind. -/
def found : Value → Found
  | scalar value => .kind value.kindName
  | message record => .record record.type.name

/-- The scalar that a value is, if it is one. -/
def scalar? : Value → Option Scalar
  | scalar value => some value
  | message _ => none

/-- The record that a value is, if it is one. -/
def message? : Value → Option Record
  | scalar _ => none
  | message record => some record

end Value

/-- The values that a slot holds, in order. -/
def Slot.values : Slot → List Value
  | single value => [value]
  | repeated values => values

namespace Record

/-- A record with nothing set. -/
def empty (schema : Schema) (type : MessageType) : Record := ⟨schema, type, [], []⟩

/-- The slot at a tag. -/
def slot? (record : Record) (tag : Nat) : Option Slot := TagMap.find? record.slots tag

/-- The elements at a tag; none if there is no slot, or one that holds a single value. -/
def elements (record : Record) (tag : Nat) : List Value :=
  match record.slot? tag with
  | some (.repeated values) => values
  | _ => []

/-- Put a slot at a tag. -/
def putSlot (record : Record) (tag : Nat) (slot : Slot) : Record :=
  { record with slots := TagMap.insert tag slot record.slots }

/-- Keep a unit that is not understood. -/
def keep (record : Record) (unit : RawUnit) : Record :=
  { record with unknown := record.unknown.push unit }

/-- Whether nothing is set and no unknown unit is held. -/
def isEmpty (record : Record) : Bool := record.slots.isEmpty && record.unknown.isEmpty

end Record

end TagWire
