import TagWire.Proofs.Maps.Traversals
import TagWire.Proofs.Records.Merging

/-!
Decoding by its rules, without a cursor. Bytes are divided into units, each unit is read alone, and
a record is made up tag by tag from what the units say. A nested record is decoded from its own
bytes and merged afterwards.
-/

namespace TagWire

/-- What a unit says to a record: values for the field with its tag, and units that are kept. -/
structure Reading where
  tag : Nat
  values : List Value
  kept : List RawUnit

namespace Reading

/-- All values that are said for a tag, in order. -/
def valuesAt (readings : List Reading) (tag : Nat) : List Value :=
  (readings.filter (fun reading => reading.tag == tag)).flatMap Reading.values

/-- All units that are kept under a tag, in order. -/
def keptAt (readings : List Reading) (tag : Nat) : List RawUnit :=
  (readings.filter (fun reading => reading.tag == tag)).flatMap Reading.kept

end Reading

namespace Reference

/-- What the content of a scalar says: a value, or a unit to keep if it is a number that is not
declared.
-/
def readScalar? (schema : Schema) (field : Field) (content : Bytes) (whole : RawUnit)
    : Option Reading :=
  (field.kind.scalar? content).map (fun value =>
    if schema.isUndeclared field.kind value then ⟨field.tag, [], [whole]⟩
    else ⟨field.tag, [.scalar value], []⟩)

/-- What an element of a packed run says. If it is kept, it becomes a unit with the shortest key. -/
def readElement? (schema : Schema) (field : Field) (element : Payload) : Option Reading :=
  readScalar? schema field element.content
    ⟨field.tag, .varint, Varint.encode (Key.pack field.tag .varint) ++ element.bytes⟩

/-- What a packed run says: what its elements say, one after the other. -/
def readRun? (schema : Schema) (field : Field) (run : Bytes) : Option Reading :=
  (cutAll? field.wireKind.payload? run).bind (fun elements =>
    (elements.mapM (readElement? schema field)).map (fun readings =>
      ⟨field.tag, readings.flatMap Reading.values, readings.flatMap Reading.kept⟩))

/-- What a unit says to a record of a type, given a decoder for the records nested in it. The wire
kind has to be that of the field, or delimited for a repeated field of a packable kind.
-/
def readUnit? (nested : String → Bytes → Option Record) (schema : Schema) (type : MessageType)
    (unit : WireUnit) : Option Reading :=
  match type.field? unit.tag with
  | none => some ⟨unit.tag, [], [unit.raw]⟩
  | some field =>
      if unit.wire = field.wireKind then
        match field.kind with
        | .message name =>
            (nested name unit.payload.content).map (fun record =>
              ⟨field.tag, [.message record], []⟩)
        | _ => readScalar? schema field unit.payload.content unit.raw
      else if unit.wire = .lengthDelimited ∧ field.isRepeated ∧ field.kind.isPackable then
        readRun? schema field unit.payload.content
      else none

/-- What a singular field holds when one value comes after another: the later one, but a record is
merged into a record.
-/
def later : Value → Value → Value
  | .message earlier, .message record => .message (earlier.overlay record)
  | _, value => value

/-- What a field holds after values came for it: none leave it unset, a repeated field holds all,
a singular one what they come to one after the other.
-/
def slotOf? (field : Field) : List Value → Option Slot
  | [] => none
  | first :: rest =>
      some (
        if field.isRepeated then .repeated (first :: rest)
        else .single (rest.foldl later first))

/-- The units that are kept under a tag, if there are any. -/
def entryOf? : List RawUnit → Option (List RawUnit)
  | [] => none
  | units => some units

/-- The record of a type that readings make up, tag by tag. -/
def gather (schema : Schema) (type : MessageType) (readings : List Reading) : Record where
  schema := schema
  type := type
  slots :=
    TagMap.tabulate
      (fun tag =>
        (type.field? tag).bind (fun field => slotOf? field (Reading.valuesAt readings tag)))
      (readings.map Reading.tag)
  unknown :=
    TagMap.tabulate (fun tag => entryOf? (Reading.keptAt readings tag)) (readings.map Reading.tag)

/-- Decode a record of a type, given a decoder for the records nested in it. -/
def decodeBody? (nested : String → Bytes → Option Record) (schema : Schema) (type : MessageType)
    (bytes : Bytes) : Option Record :=
  (WireUnit.units? bytes).bind (fun units =>
    (units.mapM (readUnit? nested schema type)).map (gather schema type))

/-- Decode a record that may take up a number of levels, its own included. -/
def decodeWithin? (schema : Schema) : (levels : Nat) → String → Bytes → Option Record
  | 0, _, _ => none
  | levels + 1, name, bytes =>
      (schema.message? name).bind (fun type =>
        decodeBody? (decodeWithin? schema levels) schema type bytes)

/-- Decode a record of the message type with a name; `limit` levels may nest below it. -/
def decode? (schema : Schema) (limit : Nat) (name : String) (bytes : Bytes) : Option Record :=
  decodeWithin? schema (limit + 1) name bytes

end Reference

end TagWire
