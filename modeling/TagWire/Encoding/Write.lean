import TagWire.Encoding.Output
import TagWire.Record.Basic

/-!
Writing a record to a target. Units go out by ascending tag, and at one tag the declared ones come
before those that are not understood. The length of a nested record stands before it, so the
writer is given all those lengths beforehand.
-/

namespace TagWire

variable {τ : Type}

/-- Write units that were kept, as they came. -/
def Output.putUnits [Target τ] (output : Output τ) (set : UnknownSet) : Output τ :=
  set.units.foldl (fun output unit => output.put unit.bytes) output

/-- The payloads of a packed run. A record has none that could be told from its neighbours. -/
def packedPayload (values : List Value) : Bytes :=
  values.flatMap (fun value => (value.scalar?.map Scalar.payload).getD [])

mutual

/-- Write a value without its key. A record stands behind its length. -/
def Value.write [Target τ] : Value → Output τ → Output τ
  | .scalar value, output => output.put value.payload
  | .message record, output =>
      let (length, output) := output.nextLength
      record.writeBody (output.putVarint length)

/-- Write each value as a unit of its own. -/
def writeUnits [Target τ] (field : Field) : List Value → Output τ → Output τ
  | [], output => output
  | value :: rest, output =>
      writeUnits field rest (value.write (output.putKey field.tag field.wireKind))

/-- Write what a field holds: a unit for each value, or one for all if they are packed. -/
def Slot.write [Target τ] (field : Field) : Slot → Output τ → Output τ
  | .single value, output => value.write (output.putKey field.tag field.wireKind)
  | .repeated values, output =>
      if values.isEmpty then output
      else if field.packed then
        (output.putKey field.tag .lengthDelimited).put (Scalar.delimited (packedPayload values))
      else writeUnits field values output

/-- Write slots and unknown units in one ascending order of tags. A slot that the type does not
declare is left out. -/
def writeSlots [Target τ] (type : MessageType)
    : List (Nat × Slot) → UnknownSet → Output τ → Output τ
  | [], unknown, output => output.putUnits unknown
  | (tag, slot) :: rest, unknown, output =>
      let output := output.putUnits (unknown.takeWhile (fun entry => entry.1 < tag))
      let output :=
        match type.field? tag with
        | some field => slot.write field output
        | none => output
      writeSlots type rest (unknown.dropWhile (fun entry => entry.1 < tag)) output

/-- Write a record without its length. -/
def Record.writeBody [Target τ] : Record → Output τ → Output τ
  | ⟨_, type, slots, unknown⟩, output => writeSlots type slots unknown output

end

end TagWire
