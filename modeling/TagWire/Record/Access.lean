import TagWire.Record.Basic
import TagWire.Record.Error

/-!
Reading and changing the fields of a record. Every operation first finds the field that the tag
declares, then asks for the cardinality it needs, then for the kind; the first thing that is
wrong is the error, and a refused operation has no result to take the record's place.
-/

namespace TagWire.Record

/-- An empty record of the message type with a name. -/
def make (schema : Schema) (name : String) : Except RecordError Record :=
  match schema.message? name with
  | some type => .ok (empty schema type)
  | none => .error (.unknownMessage name)

/-- The field that a tag declares. -/
def fieldAt (record : Record) (tag : Nat) : Except RecordError Field :=
  match record.type.field? tag with
  | some field => .ok field
  | none => .error (.unknownField record.type.name tag)

/-- A field was used against its cardinality. -/
def wrongCardinality (record : Record) (field : Field) (advice : Operation) : RecordError :=
  .cardinality record.type.name field.name field.cardinality advice

/-- A value is not of the field's kind. -/
def wrongKind (record : Record) (field : Field) (actual : Found) : RecordError :=
  .mismatch record.type.name field.name field.kind actual

/-- Whether a field may hold a value: it has to be of the field's kind, and a number has to be
declared by the field's enumeration. -/
def check (record : Record) (field : Field) (value : Value) : Except RecordError Unit :=
  if !value.isOfKind field.kind then .error (record.wrongKind field value.found)
  else
    match value with
    | .scalar (.enum number) =>
        if record.schema.isUndeclared field.kind (.enum number) then
          .error (record.wrongKind field (.undeclared number))
        else .ok ()
    | _ => .ok ()

/-- Give a singular field a value. -/
def set (record : Record) (tag : Nat) (value : Value) : Except RecordError Record := do
  let field ← record.fieldAt tag
  if field.isRepeated then throw (record.wrongCardinality field .append)
  record.check field value
  return record.putSlot tag (.single value)

/-- Add a value after the elements of a repeated field. -/
def append (record : Record) (tag : Nat) (value : Value) : Except RecordError Record := do
  let field ← record.fieldAt tag
  if !field.isRepeated then throw (record.wrongCardinality field .set)
  record.check field value
  match record.slot? tag with
  | none => return record.putSlot tag (.repeated [value])
  | some (.repeated values) => return record.putSlot tag (.repeated (values ++ [value]))
  | some (.single _) => throw (record.wrongCardinality field .set)

/-- The value of a kind for which nothing else is declared: zero, false or empty, the first
number of an enumeration, an empty record. -/
def zero (record : Record) : Kind → Except RecordError Value
  | .int32 => .ok (.scalar (.int32 0))
  | .int64 => .ok (.scalar (.int64 0))
  | .uint32 => .ok (.scalar (.uint32 0))
  | .uint64 => .ok (.scalar (.uint64 0))
  | .sint32 => .ok (.scalar (.sint32 0))
  | .sint64 => .ok (.scalar (.sint64 0))
  | .bool => .ok (.scalar (.bool false))
  | .enum type => .ok (.scalar (.enum (record.schema.defaultNumber type)))
  | .fixed32 => .ok (.scalar (.fixed32 0))
  | .sfixed32 => .ok (.scalar (.sfixed32 0))
  | .float => .ok (.scalar (.float 0))
  | .fixed64 => .ok (.scalar (.fixed64 0))
  | .sfixed64 => .ok (.scalar (.sfixed64 0))
  | .double => .ok (.scalar (.double 0))
  | .string => .ok (.scalar (.string ""))
  | .bytes => .ok (.scalar (.bytes []))
  | .message type => (make record.schema type).map .message

/-- The value of an unset field: the declared default, or else the zero of its kind. -/
def defaultOf (record : Record) (field : Field) : Except RecordError Value :=
  match field.default? with
  | some (.scalar value) => .ok (.scalar value)
  | _ => record.zero field.kind

/-- The value of a singular field, or its default while it is unset. -/
def get (record : Record) (tag : Nat) : Except RecordError Value := do
  let field ← record.fieldAt tag
  if field.isRepeated then throw (record.wrongCardinality field .getRepeated)
  match record.slot? tag with
  | some (.single value) => return value
  | _ => record.defaultOf field

/-- The elements of a repeated field. -/
def getRepeated (record : Record) (tag : Nat) : Except RecordError (List Value) := do
  let field ← record.fieldAt tag
  if !field.isRepeated then throw (record.wrongCardinality field .get)
  return record.elements tag

/-- The number of values that a field holds. -/
def count (record : Record) (tag : Nat) : Except RecordError Nat := do
  let _ ← record.fieldAt tag
  return ((record.slot? tag).map (fun slot => slot.values.length)).getD 0

/-- Whether anything is set at a tag. -/
def isSet (record : Record) (tag : Nat) : Bool := (record.slot? tag).isSome

/-- Unset a field. -/
def clear (record : Record) (tag : Nat) : Except RecordError Record := do
  let _ ← record.fieldAt tag
  return { record with slots := TagMap.erase tag record.slots }

/-- The message type of a field whose values are records. -/
def messageKind (record : Record) (field : Field) : Except RecordError String :=
  match field.kind.message? with
  | some type => .ok type
  | none => .error (record.wrongKind field (.kind "message"))

/-- Add an empty record after the elements of a repeated message field. -/
def addMessage (record : Record) (tag : Nat) : Except RecordError Record := do
  let field ← record.fieldAt tag
  if !field.isRepeated then throw (record.wrongCardinality field .messageAt)
  let type ← record.messageKind field
  let nested ← make record.schema type
  match record.slot? tag with
  | none => return record.putSlot tag (.repeated [.message nested])
  | some (.repeated values) => return record.putSlot tag (.repeated (values ++ [.message nested]))
  | some (.single _) => throw (record.wrongCardinality field .messageAt)

end TagWire.Record
