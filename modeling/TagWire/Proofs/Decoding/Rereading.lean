import TagWire.Proofs.Decoding.Elements
import TagWire.Proofs.Encoding.UnitsByTag

/-!
Reading what was written. At each tag the units of a slot are read as the values that stand there,
records as whatever is made of their bytes, and kept units are kept again.
-/

namespace TagWire

namespace Reference

variable {schema : Schema} {type : MessageType} {nested : String → Bytes → Option Record}

-----------------------------------------------------------------------------------------
-- Decoding tag by tag
-----------------------------------------------------------------------------------------

theorem readScalar?_tag {field : Field} {content : Bytes} {whole : RawUnit} {reading : Reading}
    (h : readScalar? schema field content whole = some reading)
    : reading.tag = field.tag := by
  obtain ⟨value, _, rfl⟩ := Option.map_eq_some_iff.mp h
  split <;> rfl

/-- A unit only says something for its own tag. -/
theorem readUnit?_tag {unit : WireUnit} {reading : Reading}
    (h : readUnit? nested schema type unit = some reading)
    : reading.tag = unit.tag := by
  unfold readUnit? at h
  split at h
  · obtain rfl := Option.some.inj h
    rfl
  · next field hf =>
      rw [← MessageType.tag_of_field? hf]
      split at h
      · split at h
        · obtain ⟨record, _, rfl⟩ := Option.map_eq_some_iff.mp h
          rfl
        · exact readScalar?_tag h
      · split at h
        · obtain ⟨elements, _, h⟩ := Option.bind_eq_some_iff.mp h
          obtain ⟨readings, _, rfl⟩ := Option.map_eq_some_iff.mp h
          rfl
        · simp at h

/-- What the units with one tag, read one after the other, say. -/
def Says (nested : String → Bytes → Option Record) (schema : Schema) (type : MessageType)
    (units : List WireUnit) (values : List Value) (kept : List RawUnit)
    : Prop :=
  ∃ readings,
    units.mapM (readUnit? nested schema type) = some readings
    ∧ readings.flatMap Reading.values = values
    ∧ readings.flatMap Reading.kept = kept

theorem Says.nil : Says nested schema type [] [] [] := ⟨[], rfl, rfl, rfl⟩

theorem Says.append {left right : List WireUnit} {values more : List Value}
    {kept others : List RawUnit} (hl : Says nested schema type left values kept)
    (hr : Says nested schema type right more others)
    : Says nested schema type (left ++ right) (values ++ more) (kept ++ others) := by
  rcases hl with ⟨first, hf, rfl, rfl⟩
  rcases hr with ⟨second, hs, rfl, rfl⟩
  exact ⟨first ++ second, by rw [Traversal.mapM_append_eq_bind, hf, hs]; rfl,
    List.flatMap_append, List.flatMap_append⟩

theorem Says.single {unit : WireUnit} {reading : Reading}
    (h : readUnit? nested schema type unit = some reading)
    : Says nested schema type [unit] reading.values reading.kept :=
  ⟨[reading], Traversal.mapM_cons_eq_some_iff.mpr ⟨reading, [], h, rfl, rfl⟩, by simp, by simp⟩

theorem Says.cons {unit : WireUnit} {reading : Reading} {units : List WireUnit}
    {values : List Value} {kept : List RawUnit}
    (h : readUnit? nested schema type unit = some reading)
    (hr : Says nested schema type units values kept)
    : Says nested schema type (unit :: units) (reading.values ++ values) (reading.kept ++ kept) :=
  Says.append (Says.single h) hr

theorem Says.unique {units : List WireUnit} {values others : List Value} {kept held : List RawUnit}
    (h : Says nested schema type units values kept) (ho : Says nested schema type units others held)
    : values = others ∧ kept = held := by
  rcases h with ⟨readings, hr, rfl, rfl⟩
  rcases ho with ⟨_, ho, rfl, rfl⟩
  obtain rfl := Option.some.inj (hr.symm.trans ho)
  exact ⟨rfl, rfl⟩

/-- Of all units, those with a tag say what is read for the tag. -/
theorem says_filter {units : List WireUnit} {readings : List Reading}
    (hr : units.mapM (readUnit? nested schema type) = some readings) (tag : Nat)
    : Says nested schema type (units.filter (fun unit => unit.tag == tag))
        (Reading.valuesAt readings tag) (Reading.keptAt readings tag) := by
  have hfilter := Traversal.mapM_filter (q := fun reading => reading.tag == tag) hr
    (fun unit _ reading h => by rw [readUnit?_tag h])
  exact ⟨_, hfilter, rfl, rfl⟩

/-- Bytes are decoded to a record if at every tag the units say what the record holds there. -/
theorem decodeBody?_eq_some_of_says {bytes : Bytes} {units : List WireUnit}
    (hu : WireUnit.units? bytes = some units) {record : Record}
    (hschema : record.schema = schema) (htype : record.type = type)
    (slots : TagMap.Ascending record.slots) (unknown : TagMap.Ascending record.unknown)
    (tagwise
      : ∀ tag, ∃ values,
          Says nested schema type (units.filter (fun unit => unit.tag == tag)) values
            (record.unknown.unitsAt tag)
          ∧ (type.field? tag).bind (fun field => slotOf? field values) = record.slot? tag)
    (filled : ∀ tag units, TagMap.find? record.unknown tag = some units → units ≠ [])
    : decodeBody? nested schema type bytes = some record := by
  -- Every unit has a tag, so all units are read once those with each tag are.
  have each : ∀ unit ∈ units, ∃ reading, readUnit? nested schema type unit = some reading := by
    intro unit hm
    obtain ⟨_, ⟨readings, hr, _⟩, _⟩ := tagwise unit.tag
    exact Traversal.exists_mapM_of_mem hr (List.mem_filter.mpr ⟨hm, by simp⟩)
  obtain ⟨readings, hr⟩ := Traversal.exists_mapM_eq_some each
  refine decodeBody?_eq_some_iff.mpr ⟨units, readings, hu, hr, ?_⟩
  have atTag (tag : Nat)
      : (type.field? tag).bind (fun field => slotOf? field (Reading.valuesAt readings tag))
          = record.slot? tag
        ∧ Reading.keptAt readings tag = record.unknown.unitsAt tag := by
    obtain ⟨values, hsays, hslot⟩ := tagwise tag
    obtain ⟨hv, hk⟩ := (says_filter hr tag).unique hsays
    exact ⟨by rw [hv, hslot], hk⟩
  refine Record.ext_of_slots hschema.symm htype.symm (gather_ascending readings) slots
    (fun tag => ?_) ((gather_unknown_ascending readings).ext unknown (fun tag => ?_))
  · rw [slot?_gather, (atTag tag).1]
  · rw [find?_unknown_gather, (atTag tag).2, entryOf?_unitsAt (filled tag)]

-----------------------------------------------------------------------------------------
-- Kept units
-----------------------------------------------------------------------------------------

/-- Only numbers of enumerations can be undeclared, and these are no records. -/
theorem message?_of_isUndeclared {kind : Kind} {value : Scalar}
    (h : schema.isUndeclared kind value = true)
    : kind.message? = none := by
  cases kind <;> first | rfl | simp [Schema.isUndeclared] at h

/-- A unit for which a type has no place is kept as it is. -/
theorem readUnit?_foreign {unit : WireUnit} (h : unit.Foreign schema type)
    : readUnit? nested schema type unit = some ⟨unit.tag, [], [unit.raw]⟩ := by
  rcases h with hf | ⟨field, value, hf, hw, hv, hu⟩
  · exact readUnit?_undeclared hf
  · rw [readUnit?_scalar hf hw (message?_of_isUndeclared hu), readScalar?, hv, Option.map_some,
      if_pos hu, MessageType.tag_of_field? hf]

theorem says_foreign {units : List WireUnit} (h : ∀ unit ∈ units, unit.Foreign schema type)
    : Says nested schema type units [] (units.map WireUnit.raw) := by
  induction units with
  | nil => exact Says.nil
  | cons unit rest ih =>
      exact Says.cons (readUnit?_foreign (h unit (by simp)))
        (ih (fun other ho => h other (by simp [ho])))

theorem says_kept {units : List RawUnit} (h : ∀ unit ∈ units, unit.Keepable schema type)
    : Says nested schema type (units.map RawUnit.whole) [] units := by
  have hforeign : ∀ unit ∈ units.map RawUnit.whole, unit.Foreign schema type := by
    intro unit hu
    obtain ⟨raw, hr, rfl⟩ := List.mem_map.mp hu
    exact (h raw hr).whole.2.2
  have hsays : Says nested schema type (units.map RawUnit.whole) []
      ((units.map RawUnit.whole).map WireUnit.raw) :=
    says_foreign hforeign
  rwa [RawUnit.raw_whole_all h] at hsays

-----------------------------------------------------------------------------------------
-- Values
-----------------------------------------------------------------------------------------

/-- What becomes of a value that is written and read: a record is whatever is made of its bytes. -/
def reread? (nested : String → Bytes → Option Record) : Value → Option Value
  | .scalar value => some (.scalar value)
  | .message record => (nested record.type.name record.encoding).map .message

section Fields

variable {field : Field}

theorem message?_of_scalar_fits {kind : Kind} {value : Scalar}
    (h : (Value.scalar value).Fits schema kind)
    : kind.message? = none := by
  have hk := h.ofKind
  cases kind <;> first | rfl | cases value <;> simp [Value.isOfKind, Scalar.isOfKind] at hk

theorem readScalar?_written {value : Scalar} (h : (Value.scalar value).Fits schema field.kind)
    (whole : RawUnit)
    : readScalar? schema field value.toPayload.content whole
      = some ⟨field.tag, [.scalar value], []⟩ := by
  rw [readScalar?, Scalar.scalar?_toPayload h.ofKind, Option.map_some,
    if_neg (by simp [h.declared value rfl])]

/-- The unit of one value says what becomes of the value. -/
theorem readUnit?_written (hf : type.field? field.tag = some field) {value : Value}
    (h : value.Fits schema field.kind)
    : readUnit? nested schema type (field.unit field.wireKind value.toPayload)
      = (reread? nested value).map (fun reread => ⟨field.tag, [reread], []⟩) := by
  cases value with
  | scalar scalar =>
      exact (readUnit?_scalar hf rfl (message?_of_scalar_fits h)).trans (readScalar?_written h _)
  | message record =>
      refine (readUnit?_message hf rfl h.kind_eq).trans ?_
      rw [reread?, Option.map_map]
      rfl

/-- What fits a kind that is not of messages is a scalar. -/
theorem exists_scalar_of_fits {kind : Kind} (hm : kind.message? = none) {value : Value}
    (h : value.Fits schema kind)
    : ∃ scalar, value = .scalar scalar := by
  cases value with
  | scalar scalar => exact ⟨scalar, rfl⟩
  | message record =>
      rw [h.kind_eq] at hm
      simp [Kind.message?] at hm

theorem exists_scalar_of_packable {kind : Kind} (hp : kind.isPackable = true) {value : Value}
    (h : value.isOfKind kind = true)
    : ∃ scalar, value = .scalar scalar := by
  cases value with
  | scalar scalar => exact ⟨scalar, rfl⟩
  | message record =>
      obtain rfl : kind = .message record.type.name := by simpa [Value.isOfKind] using h
      simp [Kind.isPackable, Kind.wireKind] at hp

/-- A run of scalars is the run of their payloads. -/
theorem packedPayload_eq {values : List Value}
    (scalars : ∀ value ∈ values, ∃ scalar, value = .scalar scalar)
    : packedPayload values = (values.map Value.toPayload).flatMap Payload.bytes := by
  rw [List.flatMap_map]
  refine List.flatMap_congr (fun value hv => ?_)
  obtain ⟨scalar, rfl⟩ := scalars value hv
  exact scalar.bytes_toPayload.symm

theorem packedPayload_of_packable {kind : Kind} (hp : kind.isPackable = true)
    {values : List Value} (h : ∀ value ∈ values, value.Fits schema kind)
    : packedPayload values = (values.map Value.toPayload).flatMap Payload.bytes :=
  packedPayload_eq (fun value hv => exists_scalar_of_packable hp (h value hv).ofKind)

/-- The payloads in a packed run are cut off one by one. -/
theorem payload?_of_packed {kind : Kind} (hp : kind.isPackable = true) {values : List Value}
    (h : ∀ value ∈ values, value.Fits schema kind)
    (hlen : (packedPayload values).length < 2 ^ 64)
    : ∀ element ∈ values.map Value.toPayload,
        kind.wireKind.payload? element.bytes = some (element, []) := by
  intro element hm
  obtain ⟨value, hv, rfl⟩ := List.mem_map.mp hm
  refine (h value hv).payload?_toPayload (Nat.lt_of_le_of_lt ?_ hlen)
  rw [packedPayload_of_packable hp h]
  exact (List.sublist_flatten_of_mem (List.mem_map_of_mem hm)).length_le

/-- The unit of a packed run says what the units of its elements would say, also to another field
than that it was written for, if that has the same wire kind.
-/
theorem readUnit?_packed {here : Schema} {other : Field} (hf : type.field? field.tag = some other)
    (wire : other.wireKind = field.wireKind) (hrep : other.isRepeated = true)
    (hp : other.kind.isPackable = true) {values : List Value}
    (h : ∀ value ∈ values, value.Fits here field.kind)
    (hlen : (packedPayload values).length < 2 ^ 64)
    : readUnit? nested schema type
        (field.unit .lengthDelimited (.delimited (packedPayload values)))
      = some
          ⟨other.tag,
            values.flatMap (fun value => (elementReading schema other value.toPayload).values),
            values.flatMap (fun value => (elementReading schema other value.toPayload).kept)⟩ := by
  have htag : other.tag = field.tag := MessageType.tag_of_field? hf
  have written : field.kind.isPackable = true := by
    rw [Kind.isPackable, ← Field.wireKind, ← wire]
    exact hp
  have hrun : readUnit? nested schema type
        (other.run (Varint.encode (Key.pack field.tag .lengthDelimited))
          (Varint.encode (packedPayload values).length) (values.map Value.toPayload))
      = some ⟨other.tag, (values.map Value.toPayload).filterMap (other.valueOf? schema),
          (values.map Value.toPayload).filterMap (other.keptOf? schema)⟩ :=
    readUnit?_run (htag ▸ hf) hp hrep (wire ▸ payload?_of_packed written h hlen) _ _
  obtain ⟨hvalues, hkept⟩ :=
    flatMap_elementReading schema other (values.map Value.toPayload)
  rw [← hvalues, ← hkept, List.flatMap_map, List.flatMap_map, List.flatMap_map, List.flatMap_map,
    Field.run, ← packedPayload_of_packable written h] at hrun
  rw [Field.unit, ← htag]
  rw [← htag] at hrun
  exact hrun

/-- The units of a slot say what the units of its values say, one after the other, and so does the
one unit of a packed run. They may be read by another field than that they were written for.
-/
theorem says_toUnits {here : Schema} {other : Field} (hf : type.field? field.tag = some other)
    (wire : other.wireKind = field.wireKind)
    (legal : field.packed = true → other.isRepeated = true ∧ other.kind.isPackable = true)
    {slot : Slot} (h : ∀ value ∈ slot.values, value.Fits here field.kind)
    (hlen : ∀ unit ∈ slot.toUnits field, unit.bytes.length < 2 ^ 64) {reading : Value → Reading}
    (each
      : ∀ value ∈ slot.values,
          readUnit? nested schema type (field.unit field.wireKind value.toPayload)
            = some (reading value))
    : Says nested schema type (slot.toUnits field)
        (slot.values.flatMap (fun value => (reading value).values))
        (slot.values.flatMap (fun value => (reading value).kept)) := by
  have htag : other.tag = field.tag := MessageType.tag_of_field? hf
  have same : field.unit field.wireKind = other.unit other.wireKind := by
    funext payload
    rw [Field.unit, Field.unit, htag, wire]
  have unpacked {values : List Value}
      (each
        : ∀ value ∈ values,
            readUnit? nested schema type (field.unit field.wireKind value.toPayload)
              = some (reading value))
      : Says nested schema type ((toPayloads values).map (field.unit field.wireKind))
          (values.flatMap (fun value => (reading value).values))
          (values.flatMap (fun value => (reading value).kept)) := by
    rw [toPayloads_eq_map, List.map_map]
    exact ⟨values.map reading, Traversal.mapM_map_eq_some each, List.flatMap_map _ _ _,
      List.flatMap_map _ _ _⟩
  cases slot with
  | single value => exact unpacked each
  | repeated values =>
      rw [Slot.toUnits] at hlen ⊢
      rw [Slot.values_repeated] at h each ⊢
      split
      · next hempty =>
          obtain rfl := List.isEmpty_iff.mp hempty
          exact Says.nil
      · next hempty =>
          split
          · next hp =>
              obtain ⟨hrep, hpack⟩ := legal hp
              have reads : ∀ value ∈ values,
                  elementReading schema other value.toPayload = reading value := by
                intro value hv
                have apart : readUnit? nested schema type
                      (other.unit other.wireKind value.toPayload)
                    = some (elementReading schema other value.toPayload) :=
                  readUnit?_apart (htag ▸ hf) hpack value.toPayload
                exact Option.some.inj (apart.symm.trans (same ▸ each value hv))
              have hrun := hlen (field.unit .lengthDelimited (.delimited (packedPayload values)))
                (by simp [hempty, hp])
              simp only [WireUnit.bytes, Field.unit, Payload.bytes, Payload.delimited,
                List.length_append] at hrun
              have hread : readUnit? nested schema type
                  (field.unit .lengthDelimited (.delimited (packedPayload values))) = some _ :=
                readUnit?_packed hf wire hrep hpack h (by omega)
              rw [List.flatMap_congr (fun value hv => congrArg Reading.values (reads value hv)),
                List.flatMap_congr (fun value hv => congrArg Reading.kept (reads value hv))]
                at hread
              exact Says.single hread
          · exact unpacked each

/-- The units of a slot say what becomes of its values. -/
theorem says_slot (hf : type.field? field.tag = some field)
    (legal : field.packed = true → field.isRepeated = true ∧ field.kind.isPackable = true)
    {slot : Slot} (h : ∀ value ∈ slot.values, value.Fits schema field.kind)
    (hlen : ∀ unit ∈ slot.toUnits field, unit.bytes.length < 2 ^ 64) {rereads : List Value}
    (hr : slot.values.mapM (reread? nested) = some rereads)
    : Says nested schema type (slot.toUnits field) rereads [] := by
  have each : ∀ value ∈ slot.values,
      readUnit? nested schema type (field.unit field.wireKind value.toPayload)
        = some ⟨field.tag, (reread? nested value).toList, []⟩ := by
    intro value hv
    obtain ⟨reread, hreread⟩ := Traversal.exists_mapM_of_mem hr hv
    rw [readUnit?_written hf (h value hv), hreread]
    rfl
  have nothing : slot.values.flatMap (fun _ => ([] : List RawUnit)) = [] :=
    List.flatMap_eq_nil_iff.mpr (fun _ _ => rfl)
  have hsays := says_toUnits hf rfl legal h hlen each
  rwa [Traversal.flatMap_toList_of_mapM hr, nothing] at hsays

end Fields

/-- The units of a conforming record with a tag say what becomes of the values there, and the units
that are kept there.
-/
theorem says_record {record : Record} (hc : record.Conforms schema) (built : schema.Built)
    (hlen : record.encoding.length < 2 ^ 64) (tag : Nat) {rereads : List Value}
    (hr : (record.valuesAt tag).mapM (reread? nested) = some rereads)
    : Says nested schema record.type (record.toUnits.filter (fun unit => unit.tag == tag)) rereads
        (record.unknown.unitsAt tag) := by
  have hkept : Says nested schema record.type ((record.unknown.unitsAt tag).map RawUnit.whole) []
      (record.unknown.unitsAt tag) :=
    says_kept (fun unit hu => (hc.here.unknown.of_mem_unitsAt hu).2)
  have hslot : Says nested schema record.type (record.type.unitsAt tag (record.slot? tag)) rereads
      [] := by
    cases hs : record.slot? tag with
    | none =>
        rw [Record.valuesAt_of_slot?_eq_none hs] at hr
        obtain rfl : [] = rereads := Option.some.inj hr
        exact Says.nil
    | some slot =>
        obtain ⟨field, hf, hslot⟩ := hc.slot hs
        rw [Record.valuesAt_of_slot? hs] at hr
        have htag := MessageType.tag_of_field? hf
        have hlenUnit : ∀ unit ∈ slot.toUnits field, unit.bytes.length < 2 ^ 64 := by
          intro unit hu
          have hle := Record.length_le_of_mem_toUnits (hc.mem_toUnits hs hf hu)
          omega
        simp only [MessageType.unitsAt, hf]
        exact says_slot (htag ▸ hf) (built.field_legal hc.here.typed hf).2
          (fun value hv => (hslot.value hv).fits) hlenUnit hr
  rw [hc.filter_toUnits]
  simpa using hslot.append hkept

end Reference

end TagWire
