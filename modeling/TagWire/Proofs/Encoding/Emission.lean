import TagWire.Encoding.Write
import TagWire.Proofs.Wire.Scalars

/-!
A record as the units that it is written as. The writer itself has a target, a count and a list of
lengths to see to; here is only what it writes, and in which order.
-/

namespace TagWire

/-- The whole unit that the bytes of a kept unit are. Bytes that are none would be taken for a
payload.
-/
def RawUnit.whole (unit : RawUnit) : WireUnit :=
  match WireUnit.first? unit.bytes with
  | some (whole, []) => whole
  | _ => ⟨unit.tag, unit.wire, [], ⟨[], unit.bytes⟩⟩

/-- A unit of a field, with the shortest form of its key. -/
def Field.unit (field : Field) (wire : WireKind) (payload : Payload) : WireUnit :=
  ⟨field.tag, wire, Varint.encode (Key.pack field.tag wire), payload⟩

mutual

/-- The payload that a value is written with. -/
def Value.toPayload : Value → Payload
  | .scalar value => value.toPayload
  | .message record => .delimited record.encoding

/-- The payloads that values are written with. -/
def toPayloads : List Value → List Payload
  | [] => []
  | value :: rest => value.toPayload :: toPayloads rest

/-- The units that a slot is written as: one for each value, or one for all if they are packed. -/
def Slot.toUnits (field : Field) : Slot → List WireUnit
  | .single value => [field.unit field.wireKind value.toPayload]
  | .repeated values =>
      if values.isEmpty then []
      else if field.packed then [field.unit .lengthDelimited (.delimited (packedPayload values))]
      else (toPayloads values).map (field.unit field.wireKind)

/-- The units that slots and kept units are written as, in one ascending order of tags. -/
def slotsToUnits (type : MessageType) : List (Nat × Slot) → UnknownSet → List WireUnit
  | [], unknown => unknown.units.map RawUnit.whole
  | (tag, slot) :: rest, unknown =>
      (UnknownSet.units (unknown.takeWhile (fun entry => entry.1 < tag))).map RawUnit.whole
        ++ (match type.field? tag with
            | some field => slot.toUnits field
            | none => [])
        ++ slotsToUnits type rest (unknown.dropWhile (fun entry => entry.1 < tag))

/-- The bytes that a record is written as. -/
def Record.encoding : Record → Bytes
  | ⟨_, type, slots, unknown⟩ => (slotsToUnits type slots unknown).flatMap WireUnit.bytes

end

/-- The units that a record is written as. -/
def Record.toUnits (record : Record) : List WireUnit :=
  slotsToUnits record.type record.slots record.unknown

theorem Record.encoding_eq (record : Record)
    : record.encoding = record.toUnits.flatMap WireUnit.bytes := by
  cases record
  rw [encoding, toUnits]

theorem toPayloads_eq_map (values : List Value)
    : toPayloads values = values.map Value.toPayload := by
  induction values with
  | nil => rfl
  | cons value rest ih => rw [toPayloads, ih, List.map_cons]

theorem RawUnit.bytes_whole (unit : RawUnit) : unit.whole.bytes = unit.bytes := by
  rw [whole]
  split
  · next whole hf =>
      have hd := WireUnit.first?_cuts.divides hf
      rw [hd, List.append_nil]
  · rfl

theorem flatMap_bytes_whole (units : List RawUnit)
    : (units.map RawUnit.whole).flatMap WireUnit.bytes = units.flatMap RawUnit.bytes := by
  simp only [List.flatMap_map, RawUnit.bytes_whole]

end TagWire
