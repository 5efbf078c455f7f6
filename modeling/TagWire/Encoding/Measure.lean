import TagWire.Encoding.Write

/-!
Measuring a record before it is written. One pass finds its length and those of all records nested
in it, in the order in which the writer will ask for them.
-/

namespace TagWire

/-- A length in bytes, and the lengths of the nested records that lie within, each before those
nested in it. -/
structure Measure where
  length : Nat
  nested : List Nat
  deriving DecidableEq, Repr

namespace Measure

/-- Nothing. -/
def zero : Measure := ⟨0, []⟩

/-- Two stretches one after the other. -/
def append (first second : Measure) : Measure :=
  ⟨first.length + second.length, first.nested ++ second.nested⟩

/-- A stretch of a number of bytes, with no record in it. -/
def ofLength (length : Nat) : Measure := ⟨length, []⟩

/-- A record behind its length. -/
def delimited (body : Measure) : Measure :=
  ⟨Varint.length body.length + body.length, body.length :: body.nested⟩

end Measure

/-- The length of a field's key. -/
def Field.keyLength (field : Field) : Nat := Varint.length (Key.pack field.tag field.wireKind)

mutual

/-- Measure a value without its key. -/
def Value.measure : Value → Measure
  | .scalar value => .ofLength value.payload.length
  | .message record => record.measure.delimited

/-- Measure values that are units of their own. -/
def measureUnits (field : Field) : List Value → Measure
  | [] => .zero
  | value :: rest =>
      ((Measure.ofLength field.keyLength).append value.measure).append (measureUnits field rest)

/-- Measure what a field holds. A packed run holds no records, so it is measured by writing it to
a counter. -/
def Slot.measure (field : Field) : Slot → Measure
  | .single value => (Measure.ofLength field.keyLength).append value.measure
  | .repeated values =>
      if field.packed then
        .ofLength ((Slot.repeated values).write field (Output.start (ByteCount.mk 0) [])).written
      else measureUnits field values

/-- Measure the slots that a type declares. -/
def measureSlots (type : MessageType) : List (Nat × Slot) → Measure
  | [] => .zero
  | (tag, slot) :: rest =>
      match type.field? tag with
      | some field => (slot.measure field).append (measureSlots type rest)
      | none => measureSlots type rest

/-- Measure a record without its length. -/
def Record.measure : Record → Measure
  | ⟨_, type, slots, unknown⟩ =>
      (Measure.ofLength unknown.weight).append (measureSlots type slots)

end

end TagWire
