import TagWire.Record.Basic
import TagWire.Text.Quoted
import TagWire.Text.Shortest

/-!
The text listing of a record: a line for every value, in the order in which the fields are
declared, nested records indented between braces, unknown units at the end. No content breaks a
line, since strings and bytes are quoted.
-/

namespace TagWire

/-- A line and how deep it is indented. -/
structure Line where
  depth : Nat
  text : String
  deriving DecidableEq, Repr

/-- A line with two spaces for each level, and its end. -/
def Line.render (line : Line) : String :=
  String.join (List.replicate line.depth "  ") ++ line.text ++ "\n"

/-- The text of a scalar. A number that its enumeration declares is written by name. -/
def Scalar.text (schema : Schema) (kind : Kind) : Scalar → String
  | int32 n | sint32 n | sfixed32 n => toString n.toInt
  | int64 n | sint64 n | sfixed64 n => toString n.toInt
  | uint32 n | fixed32 n => toString n.toNat
  | uint64 n | fixed64 n => toString n.toNat
  | bool b => if b then "true" else "false"
  | enum number =>
      let name? :=
        match kind with
        | .enum type => (schema.enum? type).bind (fun type => type.nameOf? number)
        | _ => none
      name?.getD (toString number.toInt)
  | float bits => FloatFormat.single.text bits.toNat
  | double bits => FloatFormat.double.text bits.toNat
  | string text => Quoted.text text
  | bytes content => Quoted.bytes content

/-- The line of a unit that is not understood. -/
def RawUnit.line (depth : Nat) (unit : RawUnit) : Line :=
  ⟨depth, s!"{unit.tag}: <unknown {unit.wire.name}, {unit.bytes.length} bytes>"⟩

mutual

/-- The lines of a value of a field. -/
def Value.lines (schema : Schema) (field : Field) (depth : Nat) : Value → List Line
  | .scalar value => [⟨depth, field.name ++ ": " ++ value.text schema field.kind⟩]
  | .message record =>
      ⟨depth, field.name ++ " \x7b"⟩ :: (record.lines (depth + 1) ++ [⟨depth, "\x7d"⟩])

/-- The lines of the values of a field, in order. -/
def linesOfValues (schema : Schema) (field : Field) (depth : Nat) : List Value → List Line
  | [] => []
  | value :: rest => value.lines schema field depth ++ linesOfValues schema field depth rest

/-- The lines of what a field holds. -/
def Slot.lines (schema : Schema) (field : Field) (depth : Nat) : Slot → List Line
  | .single value => value.lines schema field depth
  | .repeated values => linesOfValues schema field depth values

/-- The lines of each slot that the type declares, by tag. -/
def linesOfSlots (schema : Schema) (type : MessageType) (depth : Nat)
    : List (Nat × Slot) → List (Nat × List Line)
  | [] => []
  | (tag, slot) :: rest =>
      let others := linesOfSlots schema type depth rest
      match type.field? tag with
      | some field => (tag, slot.lines schema field depth) :: others
      | none => others

/-- The lines of a record at a depth. -/
def Record.lines (depth : Nat) : Record → List Line
  | ⟨schema, type, slots, unknown⟩ =>
      let bySlot := linesOfSlots schema type depth slots
      type.fields.flatMap (fun field => (TagMap.find? bySlot field.tag).getD [])
        ++ unknown.units.map (fun unit => unit.line depth)

end

/-- The listing of a record. -/
def Record.listing (record : Record) : String := String.join ((record.lines 0).map Line.render)

end TagWire
