import TagWire.Encoding.Measure
import TagWire.Record.Required
import TagWire.Text.Quoted

/-!
Encoding a record: measure it, then write it. The checked forms refuse a record that lacks a
required field before a byte is written.
-/

namespace TagWire

/-- Why a record cannot be encoded. -/
inductive EncodeError where
  | missingRequired (message : String) (paths : List String)
  deriving DecidableEq, Repr

/-- The text of an encoding error. -/
def EncodeError.message : EncodeError → String
  | missingRequired message paths =>
      s!"`{message}` is missing required fields {Quoted.set paths}"

namespace Record

variable {τ : Type}

/-- The length of a record's encoding. -/
def encodedLength (record : Record) : Nat := record.measure.length

/-- The lengths of a record and of all records nested in it, outer before inner. -/
def lengths (record : Record) : List Nat := record.measure.length :: record.measure.nested

/-- Write a record, complete or not, to the end of a target. The answer also holds the number of
bytes written. -/
def writeTo [Target τ] (record : Record) (target : τ) : Output τ :=
  record.writeBody (Output.start target record.lengths.tail)

/-- The bytes of a record, complete or not. -/
def bytes (record : Record) : Bytes := (record.writeTo (#[] : Buffer)).target.toList

/-- Refuse a record that lacks a required field. -/
def checkRequired (record : Record) : Except EncodeError Unit :=
  if record.isComplete then .ok ()
  else .error (.missingRequired record.type.name record.missingPaths)

/-- Encode a complete record. -/
def encode (record : Record) : Except EncodeError Bytes := do
  record.checkRequired
  return record.bytes

/-- Encode a complete record onto the end of a target. -/
def encodeTo [Target τ] (record : Record) (target : τ) : Except EncodeError (Output τ) := do
  record.checkRequired
  return record.writeTo target

end Record

end TagWire
