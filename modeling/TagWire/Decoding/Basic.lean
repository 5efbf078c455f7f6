import TagWire.Decoding.Error
import TagWire.Decoding.Scalar
import TagWire.Record.Merge
import TagWire.Record.Required

/-!
Decoding a record from a cursor. Units are read until the window of the record is used up. A
declared unit goes into its slot: a singular scalar replaces the one before it, a repeated one is
added, and a nested record is read into the one that is there already. All other units are kept
as they came, and so are numbers that their enumeration does not declare.
-/

namespace TagWire

/-- A reading step that fails with a decoding error. -/
abbrev Decoder (α : Type) := StateT Cursor (Except DecodeError) α

namespace Decoder

variable {α : Type}

/-- What a cursor shows. -/
def look (view : Cursor → α) : Decoder α := do return view (← get)

/-- A read whose failure is reported at an offset. -/
def located (offset : Nat) (read : Read α) : Decoder α := fun cursor =>
  match read cursor with
  | .ok value cursor => .ok (value, cursor)
  | .error cause _ => .error (.malformed offset cause)

/-- A read whose failure is reported where it starts. -/
def here (read : Read α) : Decoder α := do located (← look Cursor.offset) read

/-- Repeat a step until nothing remains in the window. A step takes a byte at least, so as many
steps as there are bytes are enough. -/
def repeatFor (step : α → Decoder α) : (bytes : Nat) → α → Decoder α
  | 0, value => return value
  | bytes + 1, value => do
      if (← look Cursor.remaining) = 0 then return value
      repeatFor step bytes (← step value)

/-- Repeat a step until nothing remains in the window. -/
def toEnd (step : α → Decoder α) (value : α) : Decoder α := do
  repeatFor step (← look Cursor.remaining) value

/-- Read a length, and then read in a window of that length, which has to be used up. -/
def inWindow (body : Decoder α) : Decoder α := do
  let offset ← look Cursor.offset
  let width ← located offset Cursor.takeVarint
  located offset (Cursor.openWindow width)
  let value ← body
  here Cursor.closeWindow
  return value

/-- Read a key, which has to have a legal tag and a known wire kind. -/
def key : Decoder (Nat × WireKind) := do
  let offset ← look Cursor.offset
  let (tag, code) := Key.split (← located offset Cursor.takeVarint)
  if tag = 0 ∨ maxTag < tag then throw (.invalidTag offset tag)
  match WireKind.ofCode? code with
  | some wire => return (tag, wire)
  | none => throw (.invalidWireKind offset tag code)

end Decoder

namespace Record

open Decoder

/-- Put a decoded value into a field: after the elements of a repeated field, in the place of the
value of a singular one. -/
def store (record : Record) (field : Field) (value : Value) : Record :=
  if field.isRepeated then
    record.putSlot field.tag (.repeated (record.elements field.tag ++ [value]))
  else record.putSlot field.tag (.single value)

/-- The record that a nested payload is read into: the one a singular field holds, or else an empty
one. -/
def nestedStart (record : Record) (field : Field) (fresh : Record) : Record :=
  match record.slot? field.tag with
  | some (.single (.message nested)) => if field.isRepeated then fresh else nested
  | _ => fresh

/-- Whether what a field holds leaves room for a nested record: nothing, a list if the field is
repeated, a record if it is not. -/
def hasRoom (record : Record) (field : Field) : Bool :=
  match record.slot? field.tag with
  | none => true
  | some (.repeated _) => field.isRepeated
  | some (.single (.message _)) => !field.isRepeated
  | some (.single (.scalar _)) => false

/-- Step over a unit that no field declares, and keep it. -/
def readUnknown (start tag : Nat) (wire : WireKind) (record : Record) : Decoder Record := do
  here wire.skip
  return record.keep ⟨tag, wire, ← look (·.lookback start)⟩

/-- Read one element of a packed run. An undeclared number is kept as a unit of its own. -/
def readElement (field : Field) (reader : Read Scalar) (record : Record) : Decoder Record := do
  let offset ← look Cursor.offset
  let value ← here reader
  if record.schema.isUndeclared field.kind value then
    let key := Varint.encode (Key.pack field.tag .varint)
    return record.keep ⟨field.tag, .varint, key ++ (← look (·.lookback offset))⟩
  else return record.store field (.scalar value)

/-- Read the payload of a scalar field, with the unit's key behind the cursor. -/
def readScalar (field : Field) (start : Nat) (reader : Read Scalar) (record : Record)
    : Decoder Record := do
  let value ← here reader
  if record.schema.isUndeclared field.kind value then
    return record.keep ⟨field.tag, field.wireKind, ← look (·.lookback start)⟩
  else return record.store field (.scalar value)

/-- Read the payload of a string field, which has to be UTF-8. -/
def readString (field : Field) (record : Record) : Decoder Record := do
  let offset ← look Cursor.offset
  let content ← here Cursor.takeDelimited
  match String.fromUTF8? ⟨content.toArray⟩ with
  | some text => return record.store field (.scalar (.string text))
  | none => throw (.invalidUtf8 record.type.name field.tag offset)

/-- Read the payload of a byte-string field. -/
def readBytes (field : Field) (record : Record) : Decoder Record := do
  return record.store field (.scalar (.bytes (← here Cursor.takeDelimited)))

/-- Read the payload of a message field by a reader for the records one level down. -/
def readNested (field : Field) (type : String) (inner : Record → Decoder Record)
    (record : Record) : Decoder Record := do
  let nested ← inWindow do
    match make record.schema type with
    | .ok fresh =>
        if record.hasRoom field then inner (record.nestedStart field fresh)
        else throw (.unknownMessage type)
    | .error _ => throw (.unknownMessage type)
  return record.store field (.message nested)

/-- Read the payload of a declared unit. A repeated field of a packable kind may come packed,
whether it is declared so or not. -/
def readKnown (nested : Field → String → Record → Decoder Record) (field : Field)
    (wire : WireKind) (start : Nat) (record : Record) : Decoder Record :=
  if wire = field.wireKind then
    match field.kind.reader?, field.kind with
    | some reader, _ => record.readScalar field start reader
    | none, .message type => nested field type record
    | none, .string => record.readString field
    | none, _ => record.readBytes field
  else
    match field.kind.reader?, wire, field.isRepeated with
    | some reader, .lengthDelimited, true => inWindow (toEnd (readElement field reader) record)
    | _, _, _ => throw (.wireMismatch record.type.name field.tag field.wireKind wire start)

/-- Read one unit. -/
def readUnit (nested : Field → String → Record → Decoder Record) (record : Record)
    : Decoder Record := do
  let start ← look Cursor.offset
  let (tag, wire) ← Decoder.key
  match record.type.field? tag with
  | some field => record.readKnown nested field wire start
  | none => record.readUnknown start tag wire

/-- Read the units of a record to the end of the window. Records may nest for as many levels as
given; `limit` is the number of levels that the error reports. -/
def readUnits (limit : Nat) : (levels : Nat) → Record → Decoder Record
  | 0 => toEnd (readUnit (fun _ _ _ => throw (.recursionLimit limit)))
  | levels + 1 =>
      toEnd (readUnit (fun field type => readNested field type (readUnits limit levels)))

end Record

/-- How to decode: how many levels records may nest below the outermost, and whether a record that
lacks a required field is refused. -/
structure DecodeOptions where
  recursionLimit : Nat := 100
  checkRequired : Bool := false
  deriving DecidableEq, Repr

namespace Record

/-- Read all bytes into an empty record. -/
def readAll (record : Record) (bytes : Bytes) (limit : Nat) : Except DecodeError Record :=
  (record.readUnits limit limit (Cursor.ofBytes bytes)).map Prod.fst

/-- Decode a record of the message type with a name. -/
def decode (schema : Schema) (name : String) (bytes : Bytes) (options : DecodeOptions)
    : Except DecodeError Record := do
  match schema.message? name with
  | none => throw (.unknownMessage name)
  | some type =>
      let record ← (empty schema type).readAll bytes options.recursionLimit
      if options.checkRequired && !record.isComplete then
        throw (.missingRequired name record.missingPaths)
      return record

/-- Decode a record of the same type and merge it into a record. -/
def mergeBytes (record : Record) (bytes : Bytes) : Except DecodeError Record := do
  let other ← (empty record.schema record.type).readAll bytes ({} : DecodeOptions).recursionLimit
  return record.overlay other

end Record

end TagWire
