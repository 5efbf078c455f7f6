import TagWire.Wire.Kind
import TagWire.Wire.Varint

/-!
Where encoded bytes go. A target only ever gets bytes added at its end: a buffer keeps them, a
counter keeps their number.
-/

namespace TagWire

/-- Something that bytes can be added to. -/
class Target (τ : Type) where
  /-- Add bytes at the end. -/
  push : τ → Bytes → τ

/-- A growing buffer. -/
abbrev Buffer := Array UInt8

instance : Target Buffer where
  push buffer bytes := buffer ++ bytes

/-- A number of bytes, without the bytes. -/
structure ByteCount where
  count : Nat
  deriving DecidableEq, Repr

instance : Target ByteCount where
  push counter bytes := ⟨counter.count + bytes.length⟩

/-- A target being written to: how much was written so far, and the lengths of the nested records
that are still to come, in the order in which the writer meets them. -/
structure Output (τ : Type) where
  target : τ
  written : Nat
  lengths : List Nat

namespace Output

variable {τ : Type}

/-- Nothing written yet. -/
def start (target : τ) (lengths : List Nat) : Output τ := ⟨target, 0, lengths⟩

/-- Write bytes. -/
def put [Target τ] (output : Output τ) (bytes : Bytes) : Output τ :=
  { output with
    target := Target.push output.target bytes
    written := output.written + bytes.length }

/-- Write a number in its shortest form. -/
def putVarint [Target τ] (output : Output τ) (n : Nat) : Output τ := output.put (Varint.encode n)

/-- Write the key of a unit. -/
def putKey [Target τ] (output : Output τ) (tag : Nat) (kind : WireKind) : Output τ :=
  output.putVarint (Key.pack tag kind)

/-- The length of the next nested record, which is used up; zero if none was measured. -/
def nextLength (output : Output τ) : Nat × Output τ :=
  (output.lengths.headD 0, { output with lengths := output.lengths.tail })

end Output

end TagWire
