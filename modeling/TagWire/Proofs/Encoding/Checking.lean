import TagWire.Proofs.Encoding.RoundTrip

/-!
A writer that watches its lengths. It stops at a nested record for which no length is left, and at
one that comes out longer or shorter than the length that stands before it. It never stops: the
lengths that were measured are the right ones, in the right order, and none is left over.
-/

namespace TagWire

variable {τ : Type} [Target τ]

/-- Write the payloads of a packed run one by one. No length is measured for a record in a run, so a
record stops the writer.
-/
def writeRun : List Value → Output τ → Option (Output τ)
  | [], output => some output
  | .scalar value :: rest, output => writeRun rest (output.put value.payload)
  | .message _ :: _, _ => none

mutual

/-- Write a value without its key, and watch the length of a record. -/
def Value.writeChecked : Value → Output τ → Option (Output τ)
  | .scalar value, output => some (output.put value.payload)
  | .message record, output =>
      match output.lengths with
      | [] => none
      | length :: rest =>
          let opened := { output with lengths := rest }.putVarint length
          (record.writeBodyChecked opened).filter (fun closed =>
            closed.written == opened.written + length)

/-- Write each value as a unit of its own, and watch the lengths of records. -/
def writeUnitsChecked (field : Field) : List Value → Output τ → Option (Output τ)
  | [], output => some output
  | value :: rest, output =>
      (value.writeChecked (output.putKey field.tag field.wireKind)).bind
        (writeUnitsChecked field rest)

/-- Write what a field holds, and watch the lengths of records. A packed run is written twice: to a
counter first, to know its length.
-/
def Slot.writeChecked (field : Field) : Slot → Output τ → Option (Output τ)
  | .single value, output => value.writeChecked (output.putKey field.tag field.wireKind)
  | .repeated values, output =>
      if values.isEmpty then some output
      else if field.packed then
        (writeRun values (Output.start (ByteCount.mk 0) [])).bind (fun counted =>
          writeRun values
            ((output.putKey field.tag .lengthDelimited).putVarint counted.written))
      else writeUnitsChecked field values output

/-- Write slots and unknown units in one ascending order of tags, and watch the lengths of records.
-/
def writeSlotsChecked (type : MessageType)
    : List (Nat × Slot) → UnknownSet → Output τ → Option (Output τ)
  | [], unknown, output => some (output.putUnits unknown)
  | (tag, slot) :: rest, unknown, output =>
      let output := output.putUnits (unknown.takeWhile (fun entry => entry.1 < tag))
      let written? :=
        match type.field? tag with
        | some field => slot.writeChecked field output
        | none => some output
      written?.bind
        (writeSlotsChecked type rest (unknown.dropWhile (fun entry => entry.1 < tag)))

/-- Write a record without its length, and watch those of the records nested in it. -/
def Record.writeBodyChecked : Record → Output τ → Option (Output τ)
  | ⟨_, type, slots, unknown⟩, output => writeSlotsChecked type slots unknown output

end

/-- Write a record to the end of a target, and watch the lengths of the records nested in it. -/
def Record.writeChecked (record : Record) (target : τ) : Option (Output τ) :=
  record.writeBodyChecked (Output.start target record.lengths.tail)

/-- No packed run of a record holds a record, and so in every record nested in it. -/
inductive Record.PacksScalars : Record → Prop
  | intro {record : Record}
    (here
      : ∀ tag values field,
          (tag, .repeated values) ∈ record.slots
          → record.type.field? tag = some field
          → field.packed = true
          → ∀ value ∈ values, ∃ scalar, value = .scalar scalar)
    (below : ∀ nested, record.Holds nested → nested.PacksScalars)
    : record.PacksScalars

/-- A watched piece of writing goes through, and does what the other does, where the lengths that
were measured for it are at hand, whatever follows them.
-/
def Passes (checked : Output τ → Option (Output τ)) (write : Output τ → Output τ)
    (measure : Measure)
    : Prop :=
  ∀ (output : Output τ) (rest : List Nat),
    output.lengths = measure.nested ++ rest → checked output = some (write output)

omit [Target τ] in
theorem Passes.of_eq {checked : Output τ → Option (Output τ)} {write : Output τ → Output τ}
    {measure : Measure} (h : ∀ output, checked output = some (write output))
    : Passes checked write measure :=
  fun output _ _ => h output

/-- Two watched pieces of writing go through one after the other: the first leaves the second the
lengths that were measured for it.
-/
theorem Passes.andThen {checked next : Output τ → Option (Output τ)}
    {write follow : Output τ → Output τ} {before after : Measure} {bytes : Bytes}
    (hf : Passes checked write before) (hm : Measured write before bytes)
    (hs : Passes next follow after)
    : Passes (fun output => (checked output).bind next) (fun output => follow (write output))
        (before.append after) := by
  intro output rest hl
  rw [Measure.append, List.append_assoc] at hl
  have hleft : (write output).lengths = after.nested ++ rest := by
    rw [hm.writes output _ hl]
  simp only [hf output _ hl, Option.bind_some]
  exact hs (write output) rest hleft

/-- The payloads of a run of scalars are written one by one as they are all at once. -/
theorem writeRun_eq [LawfulTarget τ] {values : List Value}
    (h : ∀ value ∈ values, ∃ scalar, value = .scalar scalar) (output : Output τ)
    : writeRun values output = some (output.put (packedPayload values)) := by
  induction values generalizing output with
  | nil =>
      simp only [writeRun, packedPayload, List.flatMap_nil, Output.put, LawfulTarget.push_nil,
        List.length_nil, Nat.add_zero]
  | cons value rest ih =>
      obtain ⟨scalar, rfl⟩ := h value (by simp)
      rw [writeRun, ih (fun other ho => h other (by simp [ho]))]
      simp only [packedPayload, List.flatMap_cons, Output.put, LawfulTarget.push_push,
        List.length_append, Nat.add_assoc]
      rfl

section Lawful

variable [LawfulTarget τ]

/-- The record that a value may be goes through. -/
def Value.NestedPasses (τ : Type) [Target τ] (value : Value) : Prop :=
  ∀ record,
    value = .message record
    → Passes (τ := τ) record.writeBodyChecked (fun output => record.writeBody output) record.measure

/-- A record goes through behind its length: the length that is taken is the one that was measured,
and as many bytes are written.
-/
theorem Value.passes {value : Value} (h : value.NestedPasses τ)
    : Passes value.writeChecked (fun output : Output τ => value.write output) value.measure := by
  cases value with
  | scalar scalar => exact .of_eq (fun output => rfl)
  | message record =>
      intro output rest hl
      simp only [Value.measure, Measure.delimited, List.cons_append] at hl
      have hr := record.measured (τ := τ)
      have hbody := h record rfl
        ({ output with lengths := record.measure.nested ++ rest }.putVarint record.measure.length)
        rest rfl
      simp only [writeChecked, hl, hbody, write, Output.nextLength, List.headD_cons,
        List.tail_cons]
      rw [hr.writes _ rest rfl, hr.length]
      simp

section Fields

variable (field : Field)

theorem unit_passes {value : Value} (h : value.NestedPasses τ)
    : Passes
        (fun output : Output τ => value.writeChecked (output.putKey field.tag field.wireKind))
        (fun output => value.write (output.putKey field.tag field.wireKind))
        ((Measure.ofLength field.keyLength).append value.measure) := by
  have hkey := Output.putKey_measured (τ := τ) field.tag field.wireKind
  exact Passes.andThen (.of_eq (fun output => rfl)) hkey (Value.passes h)

theorem units_pass {values : List Value} (h : ∀ value ∈ values, value.NestedPasses τ)
    : Passes (writeUnitsChecked field values)
        (fun output : Output τ => writeUnits field values output)
        (measureUnits field values) := by
  induction values with
  | nil => exact .of_eq (fun output => rfl)
  | cons value rest ih =>
      have nested : value.NestedMeasured τ := fun record _ => record.measured
      have hunit := unit_passes field (h value (by simp))
      have hrest := ih (fun other ho => h other (by simp [ho]))
      exact hunit.andThen (unit_measured field nested) hrest

/-- A run of scalars is as long as it was counted. -/
theorem run_passes {values : List Value} (hempty : ¬ values.isEmpty = true)
    (hp : field.packed = true) (scalars : ∀ value ∈ values, ∃ scalar, value = .scalar scalar)
    (output : Output τ)
    : (Slot.repeated values).writeChecked field output
      = some ((Slot.repeated values).write field output) := by
  simp only [Slot.writeChecked, Slot.write, if_neg hempty, if_pos hp, writeRun_eq scalars,
    Option.bind_some, Option.some.injEq]
  simp only [Output.put, Output.start, Output.putVarint, Scalar.delimited, Nat.zero_add,
    LawfulTarget.push_push, List.length_append, Nat.add_assoc]

theorem Slot.passes {slot : Slot} (h : ∀ value ∈ slot.values, value.NestedPasses τ)
    (scalars
      : ∀ values,
          slot = .repeated values
          → field.packed = true
          → ∀ value ∈ values, ∃ scalar, value = .scalar scalar)
    : Passes (slot.writeChecked field) (fun output : Output τ => slot.write field output)
        (slot.measure field) := by
  cases slot with
  | single value =>
      simp only [writeChecked, write, measure]
      exact unit_passes field (h value (by simp))
  | repeated values =>
      by_cases hempty : values.isEmpty
      · refine .of_eq (fun output => ?_)
        simp only [writeChecked, write, if_pos hempty]
      · by_cases hp : field.packed
        · exact .of_eq (run_passes field hempty hp (scalars values rfl hp))
        · simp only [writeChecked, write, measure, if_neg hempty, if_neg hp]
          exact units_pass field h

end Fields

/-- Slots go through between the kept units, which have no lengths to take. -/
theorem slots_pass (type : MessageType) {slots : List (Nat × Slot)}
    (h : ∀ entry ∈ slots, ∀ value ∈ entry.2.values, value.NestedPasses τ)
    (scalars
      : ∀ tag values field,
          (tag, .repeated values) ∈ slots
          → type.field? tag = some field
          → field.packed = true
          → ∀ value ∈ values, ∃ scalar, value = .scalar scalar)
    (unknown : UnknownSet)
    : Passes (writeSlotsChecked type slots unknown)
        (fun output : Output τ => writeSlots type slots unknown output)
        (measureSlots type slots) := by
  induction slots generalizing unknown with
  | nil => exact .of_eq (fun output => rfl)
  | cons entry rest ih =>
      rcases entry with ⟨tag, slot⟩
      have hrest := ih (fun other ho => h other (by simp [ho]))
        (fun tag values field hm => scalars tag values field (by simp [hm]))
        (unknown.dropWhile (fun entry => entry.1 < tag))
      intro output rest' hl
      have hunits := (Output.putUnits_measured (τ := τ)
        (unknown.takeWhile (fun entry => entry.1 < tag))).writes output _ rfl
      simp only [writeSlotsChecked, writeSlots]
      cases hf : type.field? tag with
      | none =>
          simp only [measureSlots, hf] at hl
          rw [Option.bind_some]
          exact hrest _ rest' (by rw [hunits]; exact hl)
      | some field =>
          have hslot : Passes (slot.writeChecked field)
              (fun output : Output τ => slot.write field output) (slot.measure field) :=
            Slot.passes field (h (tag, slot) (by simp))
              (fun values he => scalars tag values field (by simp [he]) hf)
          have measured : Measured (fun output : Output τ => slot.write field output)
              (slot.measure field) ((slot.toUnits field).flatMap WireUnit.bytes) :=
            Slot.measured field (fun value _ record _ => record.measured)
          simp only [measureSlots, hf] at hl
          exact hslot.andThen measured hrest _ rest' (by rw [hunits]; exact hl)

/-- A record whose runs are of scalars goes through, by induction over the records that it holds. -/
theorem Record.passes {record : Record} (hp : record.PacksScalars)
    : Passes (τ := τ) record.writeBodyChecked (fun output => record.writeBody output)
        record.measure := by
  induction hp with
  | @intro record here below ih =>
      rcases record with ⟨schema, type, slots, unknown⟩
      have hslots : Passes (writeSlotsChecked type slots unknown)
          (fun output : Output τ => writeSlots type slots unknown output)
          (measureSlots type slots) :=
        slots_pass type (fun entry he value hv nested hn => ih nested ⟨entry, he, hn ▸ hv⟩) here
          unknown
      intro output rest hl
      exact hslots output rest hl

/-- A record is added to the end of what is there, and is as long as it was measured. -/
theorem Record.writeTo_eq (record : Record) (target : τ)
    : record.writeTo target
      = ⟨Target.push target record.bytes, record.encodedLength, []⟩ := by
  have hr := record.measured (τ := τ)
  have hw := hr.writes (.start target record.lengths.tail) [] (List.append_nil _).symm
  rw [writeTo, hw, record.bytes_eq_encoding, encodedLength, hr.length]
  simp only [Output.start, Nat.zero_add]

theorem Record.writeChecked_eq {record : Record} (hp : record.PacksScalars) (target : τ)
    : record.writeChecked target = some (record.writeTo target) :=
  Record.passes hp (.start target record.lengths.tail) [] (List.append_nil _).symm

end Lawful

/-- What is measured is what is written, as long as no packed run holds a record. A writer that
watches the lengths goes through and does what the writer does: the length of every nested record is
at hand when its turn comes, and is its own. In the end none is left over. A buffer keeps its bytes
and gets those of the record behind them, a counter counts as many, and all ways to ask for the
length give the same number.
-/
theorem Record.writeTo_as_measured (record : Record) (hp : record.PacksScalars)
    : record.lengths.head? = some record.encodedLength
      ∧ record.bytes.length = record.encodedLength
      ∧ (∀ buffer : Buffer,
        record.writeChecked buffer = some (record.writeTo buffer)
        ∧ record.writeTo buffer = ⟨buffer ++ record.bytes.toArray, record.encodedLength, []⟩)
      ∧ ∀ counter : ByteCount,
        record.writeChecked counter = some (record.writeTo counter)
        ∧ record.writeTo counter
          = ⟨⟨counter.count + record.encodedLength⟩, record.encodedLength, []⟩ := by
  refine ⟨rfl, record.length_bytes, fun buffer => ⟨writeChecked_eq hp buffer, ?_⟩,
    fun counter => ⟨writeChecked_eq hp counter, ?_⟩⟩
  · rw [record.writeTo_eq, push_buffer]
  · have hcount : Target.push counter record.bytes
        = ⟨counter.count + record.encodedLength⟩ := by
      rw [← record.length_bytes]
      rfl
    rw [record.writeTo_eq, hcount]

namespace AddressBook

/-- A person with a telephone, with a slot that no field is declared for, and with a unit that is
not understood.
-/
def stray : Record :=
  ⟨schema, person,
    [(4, .repeated [.message oddTelephone]), (9, .single (.scalar (.bool true)))],
    [(7, [⟨7, .varint, [0x38, 0x01]⟩])]⟩

theorem stray_packsScalars : stray.PacksScalars := by
  have telephone : oddTelephone.PacksScalars := by
    refine .intro (fun tag values field hm => by simp [oddTelephone] at hm) ?_
    rintro nested ⟨entry, he, _⟩
    simp [oddTelephone] at he
  refine .intro ?_ ?_
  · intro tag values field hm hf hp
    have htag : tag = 4 := by
      simp [stray] at hm
      exact hm.1
    subst htag
    obtain rfl := Option.some.inj hf
    exact absurd hp (by decide)
  · rintro nested ⟨entry, he, hn⟩
    simp only [stray, List.mem_cons, List.not_mem_nil, or_false] at he
    rcases he with rfl | rfl
    · obtain rfl : nested = oddTelephone := by simpa using hn
      exact telephone
    · simp at hn

/-- The person is written behind a byte that is there already. The slot without a field is left out.
-/
theorem writeTo_as_measured_stray
    : stray.PacksScalars
      ∧ stray.lengths = [6, 2]
      ∧ stray.bytes = [0x22, 0x02, 0x10, 0x09, 0x38, 0x01]
      ∧ stray.writeChecked (#[0xFF] : Buffer) = some (stray.writeTo #[0xFF])
      ∧ stray.writeTo (#[0xFF] : Buffer) = ⟨#[0xFF] ++ stray.bytes.toArray, 6, []⟩
      ∧ stray.writeTo (ByteCount.mk 1) = ⟨⟨7⟩, 6, []⟩ := by
  obtain ⟨hhead, hlength, hbuffer, hcount⟩ := Record.writeTo_as_measured stray stray_packsScalars
  have hlen : stray.encodedLength = 6 := by decide +kernel
  refine ⟨stray_packsScalars, by decide +kernel, by decide +kernel, (hbuffer #[0xFF]).1, ?_, ?_⟩
  · rw [← hlen]
    exact (hbuffer #[0xFF]).2
  · rw [(hcount ⟨1⟩).2, hlen]

end AddressBook

end TagWire
