import TagWire.Proofs.Encoding.RoundTrip
import TagWire.Proofs.Schemas.Numbering

/-!
What a record is read as under a schema with the same message types but other enumerations. Numbers
that are not declared there are kept as units, and kept units whose numbers are declared there
become values. Units of a tag stay in order, so those that were kept come last.
-/

namespace TagWire

/-- The value that a kept unit is under a schema, if its number is declared there. -/
def RawUnit.valueIn? (there : Schema) (type : MessageType) (unit : RawUnit) : Option Value :=
  (type.field? unit.tag).bind (fun field => field.valueOf? there unit.whole.payload)

/-- What a kept unit says under a schema: its value, or else it is kept again. -/
def RawUnit.readingIn (there : Schema) (type : MessageType) (unit : RawUnit) : Reading :=
  match unit.valueIn? there type with
  | some value => ⟨unit.tag, [value], []⟩
  | none => ⟨unit.tag, [], [unit]⟩

mutual

/-- What a value says under a schema, once it is written. -/
def Value.readingIn (there : Schema) (field : Field) : Value → Reading
  | .scalar value => Reference.elementReading there field value.toPayload
  | .message record => ⟨field.tag, [.message (record.under there)], []⟩

/-- What values say under a schema, one after the other. -/
def valueReadings (there : Schema) (field : Field) : List Value → List Reading
  | [] => []
  | value :: rest => value.readingIn there field :: valueReadings there field rest

/-- What a slot says under a schema. -/
def Slot.readingsIn (there : Schema) (field : Field) : Slot → List Reading
  | .single value => [value.readingIn there field]
  | .repeated values => valueReadings there field values

/-- What slots say under a schema, if their tags are declared. -/
def slotReadings (there : Schema) (type : MessageType) : List (Nat × Slot) → List Reading
  | [] => []
  | (tag, slot) :: rest =>
      (match type.field? tag with
        | some field => slot.readingsIn there field
        | none => [])
      ++ slotReadings there type rest

/-- What a record is read as under a schema with the same message types. -/
def Record.under (there : Schema) : Record → Record
  | ⟨_, type, slots, unknown⟩ =>
      Reference.gather there type
        (slotReadings there type slots ++ unknown.units.map (RawUnit.readingIn there type))

end

-----------------------------------------------------------------------------------------
-- Tag by tag
-----------------------------------------------------------------------------------------

section ByTag

variable {there here : Schema} {type : MessageType}

theorem RawUnit.tag_readingIn (unit : RawUnit) : (unit.readingIn there type).tag = unit.tag := by
  rw [readingIn]
  split <;> rfl

/-- Kept units say the numbers that are declared, and are kept again for the others. -/
theorem flatMap_readingIn (there : Schema) (type : MessageType) (units : List RawUnit)
    : (units.map (RawUnit.readingIn there type)).flatMap Reading.values
        = units.filterMap (RawUnit.valueIn? there type)
      ∧ (units.map (RawUnit.readingIn there type)).flatMap Reading.kept
        = units.filter (fun unit => (unit.valueIn? there type).isNone) := by
  induction units with
  | nil => exact ⟨rfl, rfl⟩
  | cons unit rest ih =>
      rw [List.map_cons, List.flatMap_cons, List.flatMap_cons, ih.1, ih.2, RawUnit.readingIn]
      cases hv : unit.valueIn? there type <;> simp [hv]

theorem Value.tag_readingIn (field : Field) (value : Value)
    : (value.readingIn there field).tag = field.tag := by
  cases value <;> simp only [readingIn, Reference.elementReading]

/-- What a scalar says: itself if it is declared, and otherwise nothing, but its unit is kept. -/
theorem Value.readingIn_scalar {field : Field} {value : Scalar}
    (ofKind : value.isOfKind field.kind = true)
    : Value.readingIn there field (.scalar value)
      = if there.isUndeclared field.kind value then
          ⟨field.tag, [], [(field.unit field.wireKind value.toPayload).raw]⟩
        else ⟨field.tag, [.scalar value], []⟩ := by
  rw [Value.readingIn, Reference.elementReading, Field.valueOf?, Field.keptOf?,
    Scalar.scalar?_toPayload ofKind]
  cases hu : there.isUndeclared field.kind value <;> simp [Option.filter_some, hu]

theorem valueReadings_eq_map (field : Field) (values : List Value)
    : valueReadings there field values = values.map (Value.readingIn there field) := by
  induction values with
  | nil => simp only [valueReadings, List.map_nil]
  | cons value rest ih => rw [valueReadings, ih, List.map_cons]

theorem Slot.readingsIn_eq_map (field : Field) (slot : Slot)
    : slot.readingsIn there field = slot.values.map (Value.readingIn there field) := by
  cases slot with
  | single value => rw [readingsIn, values_single, List.map_cons, List.map_nil]
  | repeated values => rw [readingsIn, values_repeated, valueReadings_eq_map]

theorem Value.length_values_readingIn {field : Field} (value : Value)
    : (value.readingIn there field).values.length ≤ 1 := by
  cases value with
  | scalar scalar =>
      rw [readingIn, Reference.elementReading]
      exact Option.length_toList_le
  | message record =>
      rw [readingIn]
      exact Nat.le_refl 1

/-- What values of a field say under a schema. -/
def saidIn (there : Schema) (field : Field) (values : List Value) : List Value :=
  values.flatMap (fun value => (value.readingIn there field).values)

/-- The units that values of a field are kept as under a schema. -/
def keptIn (there : Schema) (field : Field) (values : List Value) : List RawUnit :=
  values.flatMap (fun value => (value.readingIn there field).kept)

/-- What the slot at a tag says under a schema; nothing if the tag is not declared. -/
def MessageType.readingsAt (type : MessageType) (there : Schema) (tag : Nat)
    : Option Slot → List Reading
  | none => []
  | some slot =>
      match type.field? tag with
      | some field => slot.readingsIn there field
      | none => []

theorem MessageType.tag_of_mem_readingsAt {tag : Nat} {slot : Option Slot} {reading : Reading}
    (h : reading ∈ type.readingsAt there tag slot)
    : reading.tag = tag := by
  rcases slot with _ | slot
  · simp [readingsAt] at h
  · rw [readingsAt] at h
    split at h
    · next field hf =>
        rw [Slot.readingsIn_eq_map] at h
        obtain ⟨value, _, rfl⟩ := List.mem_map.mp h
        rw [Value.tag_readingIn, tag_of_field? hf]
    · simp at h

theorem MessageType.filter_readingsAt {tag : Nat} {slot : Option Slot} (other : Nat)
    : (type.readingsAt there tag slot).filter (fun reading => reading.tag == other)
      = if tag = other then type.readingsAt there tag slot else [] := by
  split
  · next he =>
      exact List.filter_eq_self.mpr (fun reading h => by simp [tag_of_mem_readingsAt h, he])
  · next he =>
      exact List.filter_eq_nil_iff.mpr (fun reading h => by simp [tag_of_mem_readingsAt h, he])

/-- Of what slots say, what is for a tag is what the slot there says. -/
theorem filter_slotReadings {slots : List (Nat × Slot)} (h : TagMap.Ascending slots) (tag : Nat)
    : (slotReadings there type slots).filter (fun reading => reading.tag == tag)
      = type.readingsAt there tag (TagMap.find? slots tag) := by
  induction slots with
  | nil => simp [slotReadings, TagMap.find?, MessageType.readingsAt]
  | cons entry rest ih =>
      rcases entry with ⟨head, slot⟩
      have hcons : slotReadings there type ((head, slot) :: rest)
          = type.readingsAt there head (some slot) ++ slotReadings there type rest := by
        cases hf : type.field? head <;> simp only [slotReadings, MessageType.readingsAt, hf]
      rw [hcons, List.filter_append, MessageType.filter_readingsAt, ih h.tail, TagMap.find?]
      by_cases he : head = tag
      · subst he
        rw [if_pos rfl, if_pos rfl, h.find?_tail_head, MessageType.readingsAt,
          MessageType.readingsAt, List.append_nil]
      · rw [if_neg he, if_neg he, List.nil_append]

/-- What the kept units with a tag say. -/
theorem UnknownSet.Fits.filter_readings {set : UnknownSet} (h : set.Fits here type) (tag : Nat)
    : (set.units.map (RawUnit.readingIn there type)).filter (fun reading => reading.tag == tag)
      = (set.unitsAt tag).map (RawUnit.readingIn there type) := by
  rw [← h.filter_units, List.filter_map]
  congr 2
  funext unit
  rw [Function.comp_apply, RawUnit.tag_readingIn]

end ByTag

namespace Record

variable {there here : Schema}

/-- What a record says for a tag under a schema: what its slot says, and then its kept units. -/
def readingsAt (record : Record) (there : Schema) (tag : Nat) : List Reading :=
  record.type.readingsAt there tag (record.slot? tag)
    ++ (record.unknown.unitsAt tag).map (RawUnit.readingIn there record.type)

/-- The values that the units kept under a tag become under a schema that declares their numbers. -/
def revived (record : Record) (there : Schema) (tag : Nat) : List Value :=
  (record.unknown.unitsAt tag).filterMap (RawUnit.valueIn? there record.type)

theorem readingsAt_of_field? {record : Record} {tag : Nat} {field : Field}
    (hf : record.type.field? tag = some field)
    : record.readingsAt there tag
      = (record.valuesAt tag).map (Value.readingIn there field)
        ++ (record.unknown.unitsAt tag).map (RawUnit.readingIn there record.type) := by
  cases hs : record.slot? tag with
  | none =>
      simp only [readingsAt, MessageType.readingsAt, hs, valuesAt_of_slot?_eq_none hs, List.map_nil]
  | some slot =>
      simp only [readingsAt, MessageType.readingsAt, hs, hf, Slot.readingsIn_eq_map,
        valuesAt_of_slot? hs]

theorem readingsAt_of_field?_eq_none {record : Record} {tag : Nat}
    (hf : record.type.field? tag = none)
    : record.readingsAt there tag
      = (record.unknown.unitsAt tag).map (RawUnit.readingIn there record.type) := by
  cases hs : record.slot? tag <;>
    simp only [readingsAt, MessageType.readingsAt, hs, hf, List.nil_append]

/-- What a record says for a declared tag, and which units are kept. -/
theorem readingsAt_declared (record : Record) (there : Schema) {tag : Nat} {field : Field}
    (hf : record.type.field? tag = some field)
    : (record.readingsAt there tag).flatMap Reading.values
        = saidIn there field (record.valuesAt tag) ++ record.revived there tag
      ∧ (record.readingsAt there tag).flatMap Reading.kept
        = keptIn there field (record.valuesAt tag)
          ++ (record.unknown.unitsAt tag).filter (fun unit =>
            (unit.valueIn? there record.type).isNone) := by
  obtain ⟨hvalues, hkept⟩ := flatMap_readingIn there record.type (record.unknown.unitsAt tag)
  rw [readingsAt_of_field? hf, List.flatMap_append, List.flatMap_append, hvalues, hkept,
    List.flatMap_map, List.flatMap_map]
  exact ⟨rfl, rfl⟩

@[simp] theorem under_schema (record : Record) : (record.under there).schema = there := by
  cases record
  rw [under, Reference.gather_schema]

@[simp] theorem under_type (record : Record) : (record.under there).type = record.type := by
  cases record
  rw [under, Reference.gather_type]

variable {record : Record}

theorem ascending_under : TagMap.Ascending (record.under there).slots := by
  cases record
  rw [under]
  exact Reference.gather_ascending _

theorem ascending_unknown_under : TagMap.Ascending (record.under there).unknown := by
  cases record
  rw [under]
  exact Reference.gather_unknown_ascending _

theorem Conforms.filter_readings (h : record.Conforms here) (tag : Nat)
    : (slotReadings there record.type record.slots
        ++ record.unknown.units.map (RawUnit.readingIn there record.type)).filter
          (fun reading => reading.tag == tag)
      = record.readingsAt there tag := by
  rw [List.filter_append, filter_slotReadings h.here.ascending, h.here.unknown.filter_readings]
  rfl

/-- The record holds at a tag what the values that are said for the tag come to. -/
theorem Conforms.slot?_under (h : record.Conforms here) (tag : Nat)
    : (record.under there).slot? tag
      = (record.type.field? tag).bind (fun field =>
          Reference.slotOf? field ((record.readingsAt there tag).flatMap Reading.values)) := by
  rw [← h.filter_readings]
  cases record
  rw [under, Reference.slot?_gather]
  rfl

theorem Conforms.find?_unknown_under (h : record.Conforms here) (tag : Nat)
    : TagMap.find? (record.under there).unknown tag
      = Reference.entryOf? ((record.readingsAt there tag).flatMap Reading.kept) := by
  rw [← h.filter_readings]
  cases record
  rw [under, Reference.find?_unknown_gather]
  rfl

theorem Conforms.unitsAt_under (h : record.Conforms here) (tag : Nat)
    : (record.under there).unknown.unitsAt tag
      = (record.readingsAt there tag).flatMap Reading.kept := by
  rw [UnknownSet.unitsAt, h.find?_unknown_under, Reference.entryOf?_getD]

end Record

-----------------------------------------------------------------------------------------
-- Decoding under the other schema
-----------------------------------------------------------------------------------------

namespace Reference

variable {there here : Schema} {type : MessageType} {nested : String → Bytes → Option Record}

theorem values_slotOf? {field : Field} {values : List Value}
    (h : field.isRepeated = true ∨ values.length ≤ 1)
    : ((slotOf? field values).map Slot.values).getD [] = values := by
  rcases values with _ | ⟨first, _ | ⟨second, rest⟩⟩
  · rfl
  · rw [slotOf?]
    split <;> rfl
  · have hrep : field.isRepeated = true := by simpa using h
    rw [slotOf?, if_pos hrep]
    rfl

/-- A unit that was kept is kept again, or its number is declared now. -/
theorem readUnit?_whole {unit : RawUnit} (h : unit.Keepable here type)
    : readUnit? nested there type unit.whole = some (unit.readingIn there type) := by
  obtain ⟨_, hraw, hforeign⟩ := h.whole
  have htag : unit.whole.tag = unit.tag := congrArg RawUnit.tag hraw
  rcases hforeign with hf | ⟨field, value, hf, hw, hv, hu⟩
  · rw [readUnit?_undeclared hf, hraw, htag, RawUnit.readingIn, RawUnit.valueIn?, ← htag, hf,
      Option.bind_none]
  · rw [readUnit?_scalar hf hw (message?_of_isUndeclared hu), readScalar?, hv, Option.map_some,
      hraw, MessageType.tag_of_field? hf, htag, RawUnit.readingIn, RawUnit.valueIn?, ← htag, hf,
      Option.bind_some, Field.valueOf?, hv]
    cases declared : there.isUndeclared field.kind value <;> simp [Option.filter_some, declared]

theorem says_whole {units : List RawUnit} (h : ∀ unit ∈ units, unit.Keepable here type)
    : Says nested there type (units.map RawUnit.whole)
        ((units.map (RawUnit.readingIn there type)).flatMap Reading.values)
        ((units.map (RawUnit.readingIn there type)).flatMap Reading.kept) :=
  ⟨units.map (RawUnit.readingIn there type),
    Traversal.mapM_map_eq_some (fun unit hu => readUnit?_whole (h unit hu)), rfl, rfl⟩

/-- The unit of a value says what the value does, if the record that it may be is read. -/
theorem readUnit?_value {field : Field} (hf : type.field? field.tag = some field) {value : Value}
    (h : value.Fits here field.kind)
    (below
      : ∀ record,
          value = .message record
          → nested record.type.name record.encoding = some (record.under there))
    : readUnit? nested there type (field.unit field.wireKind value.toPayload)
      = some (value.readingIn there field) := by
  cases value with
  | scalar scalar =>
      rw [Value.readingIn]
      exact (readUnit?_scalar hf rfl (message?_of_scalar_fits h)).trans
        (readScalar?_spelled (Scalar.scalar?_toPayload h.ofKind) (fun _ => rfl))
  | message record =>
      rw [Value.readingIn]
      refine (readUnit?_message hf rfl h.kind_eq).trans ?_
      have hcontent : (field.unit field.wireKind (Value.message record).toPayload).payload.content
          = record.encoding :=
        rfl
      rw [hcontent, below record rfl, Option.map_some]

/-- The units of a conforming record with a tag say what the record says for the tag. -/
theorem says_readingsAt {record : Record} (hc : record.Conforms here) (built : here.Built)
    (hlen : record.encoding.length < 2 ^ 64) (tag : Nat)
    (below
      : ∀ inner,
          record.Holds inner → nested inner.type.name inner.encoding = some (inner.under there))
    : Says nested there record.type (record.toUnits.filter (fun unit => unit.tag == tag))
        ((record.readingsAt there tag).flatMap Reading.values)
        ((record.readingsAt there tag).flatMap Reading.kept) := by
  have hslot : Says nested there record.type (record.type.unitsAt tag (record.slot? tag))
      ((record.type.readingsAt there tag (record.slot? tag)).flatMap Reading.values)
      ((record.type.readingsAt there tag (record.slot? tag)).flatMap Reading.kept) := by
    cases hs : record.slot? tag with
    | none => exact Says.nil
    | some slot =>
        obtain ⟨field, hf, hslot⟩ := hc.slot hs
        have htag := MessageType.tag_of_field? hf
        have hlenUnit : ∀ unit ∈ slot.toUnits field, unit.bytes.length < 2 ^ 64 := by
          intro unit hu
          have hle := Record.length_le_of_mem_toUnits (hc.mem_toUnits hs hf hu)
          omega
        simp only [MessageType.unitsAt, MessageType.readingsAt, hf, Slot.readingsIn_eq_map,
          List.flatMap_map]
        refine says_toUnits (htag ▸ hf) rfl (built.field_legal hc.here.typed hf).2
          (fun value hv => (hslot.value hv).fits) hlenUnit (fun value hv => ?_)
        refine readUnit?_value (htag ▸ hf) (hslot.value hv).fits (fun inner he => ?_)
        exact below inner (Record.holds_of_slot? hs (he ▸ hv))
  rw [hc.filter_toUnits, Record.readingsAt, List.flatMap_append, List.flatMap_append]
  exact hslot.append (says_whole (fun unit hu => (hc.here.unknown.of_mem_unitsAt hu).2))

/-- What is read from the bytes of a conforming record under a schema with the same message types,
by induction over the records that it holds.
-/
theorem decodeWithin?_under {record : Record} (hc : record.Conforms here) (built : here.Built)
    (same : there.messages = here.messages) {levels : Nat} (hdepth : record.depth < levels)
    (hlen : record.encoding.length < 2 ^ 64)
    : decodeWithin? there levels record.type.name record.encoding = some (record.under there) := by
  induction record using Record.nestedInduction generalizing levels with
  | step record ih =>
      obtain ⟨levels, rfl⟩ := Nat.exists_eq_add_one_of_ne_zero (Nat.ne_zero_of_lt hdepth)
      rw [decodeWithin?, Schema.message?_of_messages same, hc.here.typed, Option.bind_some]
      refine decodeBody?_eq_some_of_says (hc.units?_encoding built hlen) (Record.under_schema _)
        (Record.under_type _) Record.ascending_under Record.ascending_unknown_under
        (fun tag => ?_) (fun tag units hf => ?_)
      · refine ⟨(record.readingsAt there tag).flatMap Reading.values, ?_,
          (hc.slot?_under tag).symm⟩
        rw [hc.unitsAt_under]
        refine says_readingsAt hc built hlen tag (fun inner holds => ?_)
        have hle := hc.length_encoding_le built holds
        have hlt := Record.depth_lt_of_holds holds
        exact ih inner holds (hc.inner holds) (by omega) (by omega)
      · rw [hc.find?_unknown_under] at hf
        exact (entryOf?_eq_some_iff.mp hf).2

end Reference

end TagWire
