import TagWire.Encoding.Basic
import TagWire.Proofs.Encoding.Emission
import TagWire.Proofs.Records.Nesting

/-!
The writer writes the units of a record. It is given the lengths of all nested records beforehand,
and each is right when it is asked for: what was measured is what will be written.
-/

namespace TagWire

variable {τ : Type} [Target τ]

/-- Bytes added one after the other are added as a whole. -/
class LawfulTarget (τ : Type) [Target τ] : Prop where
  push_nil : ∀ target : τ, Target.push target [] = target
  push_push
    : ∀ (target : τ) (first second : Bytes),
        Target.push (Target.push target first) second = Target.push target (first ++ second)

instance : LawfulTarget Buffer where
  push_nil target := by simp [Target.push]
  push_push target first second := by
    apply Array.ext'
    simp [Target.push]

theorem push_buffer (buffer : Buffer) (bytes : Bytes)
    : Target.push buffer bytes = buffer ++ bytes.toArray := by
  apply Array.ext'
  simp [Target.push]

instance : LawfulTarget ByteCount where
  push_nil target := rfl
  push_push target first second := by
    simp only [Target.push, List.length_append, Nat.add_assoc]

/-- A piece of writing adds some bytes, as many as were measured, and uses up the lengths that were
measured, whatever follows.
-/
structure Measured (write : Output τ → Output τ) (measure : Measure) (bytes : Bytes) : Prop where
  length : measure.length = bytes.length
  writes
    : ∀ (output : Output τ) (rest : List Nat),
        output.lengths = measure.nested ++ rest
        → write output
          = ⟨Target.push output.target bytes, output.written + bytes.length, rest⟩

namespace Measured

theorem put (bytes : Bytes)
    : Measured (fun output : Output τ => output.put bytes) (.ofLength bytes.length) bytes := by
  refine ⟨rfl, fun output rest h => ?_⟩
  obtain rfl : output.lengths = rest := h
  rfl

variable [LawfulTarget τ] {first second : Output τ → Output τ} {before after : Measure}
  {bytes more : Bytes}

theorem skip : Measured (fun output : Output τ => output) .zero [] := by
  refine ⟨rfl, fun output rest h => ?_⟩
  obtain rfl : output.lengths = rest := h
  rw [LawfulTarget.push_nil]
  rfl

theorem andThen (hf : Measured first before bytes) (hs : Measured second after more)
    : Measured (fun output => second (first output)) (before.append after) (bytes ++ more) := by
  refine ⟨?_, fun output rest h => ?_⟩
  · rw [List.length_append, ← hf.length, ← hs.length, Measure.append]
  · rw [Measure.append, List.append_assoc] at h
    rw [hf.writes output (after.nested ++ rest) h, hs.writes _ rest rfl]
    simp only [LawfulTarget.push_push, List.length_append, Nat.add_assoc]

end Measured

theorem Measure.zero_append (measure : Measure) : Measure.zero.append measure = measure := by
  simp [append, zero]

theorem Measure.append_zero (measure : Measure) : measure.append .zero = measure := by
  simp [append, zero]

/-- Stretches with no record in them count alike wherever they stand. -/
theorem Measure.append_between (before after : Nat) (middle rest : Measure)
    : (Measure.ofLength before).append (middle.append ((Measure.ofLength after).append rest))
      = (Measure.ofLength (before + after)).append (middle.append rest) := by
  simp only [append, ofLength, List.nil_append, Measure.mk.injEq, and_true]
  omega

theorem UnknownSet.weight_eq (set : UnknownSet)
    : set.weight = (set.units.flatMap RawUnit.bytes).length := by
  have counted (units : List RawUnit) (start : Nat)
      : units.foldl (fun total unit => total + unit.bytes.length) start
        = start + (units.flatMap RawUnit.bytes).length := by
    induction units generalizing start with
    | nil => rfl
    | cons unit rest ih =>
        rw [List.foldl_cons, ih, List.flatMap_cons, List.length_append, Nat.add_assoc]
  rw [weight, counted, Nat.zero_add]

theorem Output.putKey_measured (tag : Nat) (wire : WireKind)
    : Measured (fun output : Output τ => output.putKey tag wire)
        (.ofLength (Varint.length (Key.pack tag wire))) (Varint.encode (Key.pack tag wire)) := by
  rw [Varint.length_eq_length_encode]
  exact .put _

section Lawful

variable [LawfulTarget τ]

theorem Output.putUnits_measured (set : UnknownSet)
    : Measured (fun output : Output τ => output.putUnits set) (.ofLength set.weight)
        (set.units.flatMap RawUnit.bytes) := by
  refine ⟨set.weight_eq, fun output rest h => ?_⟩
  obtain rfl : output.lengths = rest := h
  rw [putUnits]
  induction set.units generalizing output with
  | nil => simp [LawfulTarget.push_nil]
  | cons unit units ih =>
      rw [List.foldl_cons, ih, List.flatMap_cons]
      simp only [put, LawfulTarget.push_push, List.length_append, Nat.add_assoc]

/-- The record that a value may be is written as it is measured. -/
def Value.NestedMeasured (τ : Type) [Target τ] (value : Value) : Prop :=
  ∀ record,
    value = .message record
    → Measured (fun output : Output τ => record.writeBody output) record.measure record.encoding

/-- A record behind its length is measured if the record is: the length that the writer takes is
the one that was measured first.
-/
theorem Value.measured {value : Value} (h : value.NestedMeasured τ)
    : Measured (fun output : Output τ => value.write output) value.measure
        value.toPayload.bytes := by
  cases value with
  | scalar scalar =>
      simp only [Value.write, Value.measure, Value.toPayload, Scalar.bytes_toPayload]
      exact .put _
  | message record =>
      have hr := h record rfl
      simp only [Value.write, Value.measure, Value.toPayload, Payload.bytes, Payload.delimited]
      refine ⟨?_, fun output rest hl => ?_⟩
      · rw [Measure.delimited, List.length_append, hr.length, Varint.length_eq_length_encode]
      · simp only [Measure.delimited, List.cons_append] at hl
        have hnext : output.nextLength
            = (record.measure.length,
              { output with lengths := record.measure.nested ++ rest }) := by
          simp [Output.nextLength, hl]
        rw [hnext, hr.writes _ rest rfl, hr.length]
        simp only [Output.putVarint, Output.put, LawfulTarget.push_push, List.length_append,
          Nat.add_assoc]

section Fields

variable (field : Field)

theorem unit_measured {value : Value} (h : value.NestedMeasured τ)
    : Measured
        (fun output : Output τ => value.write (output.putKey field.tag field.wireKind))
        ((Measure.ofLength field.keyLength).append value.measure)
        (field.unit field.wireKind value.toPayload).bytes :=
  (Output.putKey_measured field.tag field.wireKind).andThen (Value.measured h)

theorem units_measured {values : List Value} (h : ∀ value ∈ values, value.NestedMeasured τ)
    : Measured (fun output : Output τ => writeUnits field values output) (measureUnits field values)
        (((toPayloads values).map (field.unit field.wireKind)).flatMap WireUnit.bytes) := by
  induction values with
  | nil => exact .skip
  | cons value rest ih =>
      have hone := unit_measured field (h value (by simp))
      simp only [writeUnits, measureUnits, toPayloads, List.map_cons, List.flatMap_cons]
      exact hone.andThen (ih (fun other ho => h other (by simp [ho])))

theorem run_measured {values : List Value} (hempty : ¬ values.isEmpty = true)
    (hp : field.packed = true)
    : Measured (fun output : Output τ => (Slot.repeated values).write field output)
        (.ofLength (field.unit .lengthDelimited (.delimited (packedPayload values))).bytes.length)
        (field.unit .lengthDelimited (.delimited (packedPayload values))).bytes := by
  have hkey := Output.putKey_measured (τ := τ) field.tag .lengthDelimited
  have hrun := hkey.andThen (.put (Scalar.delimited (packedPayload values)))
  simp only [Slot.write, if_neg hempty, if_pos hp]
  exact ⟨rfl, fun output rest hl => hrun.writes output rest hl⟩

theorem Slot.measured {slot : Slot} (h : ∀ value ∈ slot.values, value.NestedMeasured τ)
    : Measured (fun output : Output τ => slot.write field output) (slot.measure field)
        ((slot.toUnits field).flatMap WireUnit.bytes) := by
  cases slot with
  | single value =>
      simp only [write, measure, toUnits, List.flatMap_singleton]
      exact unit_measured field (h value (by simp))
  | repeated values =>
      simp only [toUnits]
      by_cases hempty : values.isEmpty
      · obtain rfl := List.isEmpty_iff.mp hempty
        by_cases hp : field.packed
        · simp only [write, measure, if_pos hp, List.isEmpty_nil, if_true]
          exact .skip
        · simp only [write, measure, if_neg hp, List.isEmpty_nil, if_true]
          exact .skip
      · by_cases hp : field.packed
        · -- The run was measured by writing it to a counter.
          have hcount : ((Slot.repeated values).write field (.start (ByteCount.mk 0) [])).written
              = (field.unit .lengthDelimited (.delimited (packedPayload values))).bytes.length := by
            rw [(run_measured field hempty hp).writes (.start (ByteCount.mk 0) []) [] rfl]
            exact Nat.zero_add _
          simp only [measure, if_pos hp, hcount, if_neg hempty, List.flatMap_singleton]
          exact run_measured field hempty hp
        · simp only [write, measure, if_neg hempty, if_neg hp]
          exact units_measured field h

end Fields

theorem UnknownSet.weight_split (set : UnknownSet) (p : Nat × List RawUnit → Bool)
    : weight (set.takeWhile p) + weight (set.dropWhile p) = set.weight := by
  have hs : units (set.takeWhile p) ++ units (set.dropWhile p) = set.units := by
    rw [units, units, units, ← List.flatMap_append, List.takeWhile_append_dropWhile]
  simp only [weight_eq, ← hs, List.flatMap_append, List.length_append]

/-- Slots are written between the kept units, of which those with smaller tags come first. -/
theorem slots_measured (type : MessageType) {slots : List (Nat × Slot)}
    (h : ∀ entry ∈ slots, ∀ value ∈ entry.2.values, value.NestedMeasured τ) (unknown : UnknownSet)
    : Measured (fun output : Output τ => writeSlots type slots unknown output)
        ((Measure.ofLength unknown.weight).append (measureSlots type slots))
        ((slotsToUnits type slots unknown).flatMap WireUnit.bytes) := by
  induction slots generalizing unknown with
  | nil =>
      simp only [writeSlots, measureSlots, slotsToUnits, flatMap_bytes_whole, Measure.append_zero]
      exact Output.putUnits_measured unknown
  | cons entry rest ih =>
      rcases entry with ⟨tag, slot⟩
      have hbefore := Output.putUnits_measured (τ := τ)
        (unknown.takeWhile (fun entry => entry.1 < tag))
      have hafter := ih (fun other ho => h other (by simp [ho]))
        (unknown.dropWhile (fun entry => entry.1 < tag))
      have hweight := unknown.weight_split (fun entry => entry.1 < tag)
      simp only [writeSlots, measureSlots, slotsToUnits, List.flatMap_append, flatMap_bytes_whole,
        List.append_assoc, ← hweight]
      cases type.field? tag with
      | none =>
          have hall := hbefore.andThen (Measured.skip.andThen hafter)
          rwa [Measure.append_between, Measure.zero_append] at hall
      | some field =>
          have hslot := Slot.measured field (h (tag, slot) (by simp))
          have hall := hbefore.andThen (hslot.andThen hafter)
          rwa [Measure.append_between] at hall

/-- A record is written as its units, and as long as it was measured, by induction over the records
that it holds.
-/
theorem Record.measured (record : Record)
    : Measured (fun output : Output τ => record.writeBody output) record.measure
        record.encoding := by
  induction record using Record.nestedInduction with
  | step record ih =>
      rcases record with ⟨schema, type, slots, unknown⟩
      simp only [writeBody, measure, encoding]
      exact slots_measured type
        (fun entry he value hv nested hn => ih nested ⟨entry, he, hn ▸ hv⟩) unknown

end Lawful

/-- The bytes of a record are those of its units. -/
theorem Record.bytes_eq_encoding (record : Record) : record.bytes = record.encoding := by
  have hw := (record.measured (τ := Buffer)).writes (.start #[] record.lengths.tail) []
    (by simp [Output.start, lengths])
  rw [bytes, writeTo, hw]
  simp [Output.start, Target.push]

theorem Record.length_bytes (record : Record) : record.bytes.length = record.encodedLength := by
  rw [record.bytes_eq_encoding, encodedLength, (record.measured (τ := Buffer)).length]

end TagWire
