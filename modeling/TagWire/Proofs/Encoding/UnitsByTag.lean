import TagWire.Proofs.Encoding.Emission
import TagWire.Proofs.Records.Conformance
import TagWire.Proofs.Schemas.Building

/-!
The units of a written record, tag by tag. At each tag stand the units of the slot there, and after
them the units that were kept there; and all of them can be cut off again.
-/

namespace TagWire

variable {schema : Schema} {type : MessageType}

theorem WireUnit.Standing.whole_raw {unit : WireUnit} (h : unit.Standing)
    : unit.raw.whole = unit := by
  have hfirst : WireUnit.first? unit.raw.bytes = some (unit, []) := h
  rw [RawUnit.whole, hfirst]

/-- A unit that may be kept is written as the whole unit that it is. -/
theorem RawUnit.Keepable.whole {unit : RawUnit} (h : unit.Keepable schema type)
    : unit.whole.Standing ∧ unit.whole.raw = unit ∧ unit.whole.Foreign schema type := by
  rcases h with ⟨whole, hs, rfl, hf⟩
  rw [hs.whole_raw]
  exact ⟨hs, rfl, hf⟩

theorem RawUnit.raw_whole_all {units : List RawUnit}
    (h : ∀ unit ∈ units, unit.Keepable schema type)
    : (units.map RawUnit.whole).map WireUnit.raw = units := by
  rw [List.map_map]
  exact (List.map_congr_left (g := id) (fun unit hu => (h unit hu).whole.2.1)).trans
    (List.map_id units)

namespace UnknownSet.Fits

variable {set : UnknownSet}

theorem of_mem_unitsAt (h : set.Fits schema type) {tag : Nat} {unit : RawUnit}
    (hu : unit ∈ set.unitsAt tag)
    : unit.tag = tag ∧ unit.Keepable schema type := by
  cases hf : TagMap.find? set tag with
  | none => simp [unitsAt, hf] at hu
  | some units =>
      have hm : unit ∈ units := by simpa [unitsAt, hf] using hu
      exact ⟨h.filed hf unit hm, h.keepable hf unit hm⟩

theorem of_mem_units (h : set.Fits schema type) {unit : RawUnit} (hu : unit ∈ set.units)
    : unit.Keepable schema type := by
  obtain ⟨⟨tag, units⟩, hentry, hm⟩ := List.mem_flatMap.mp hu
  exact h.keepable (h.ascending.find?_of_mem hentry) unit hm

theorem tail {entry : Nat × List RawUnit} {rest : UnknownSet}
    (h : UnknownSet.Fits schema type (entry :: rest))
    : UnknownSet.Fits schema type rest := by
  have lift {tag : Nat} {units : List RawUnit} (hf : TagMap.find? rest tag = some units)
      : TagMap.find? (entry :: rest) tag = some units := by
    exact h.ascending.find?_of_mem (List.mem_cons_of_mem _ (TagMap.mem_of_find? hf))
  exact ⟨h.ascending.tail, fun hf => h.nonempty (lift hf), fun hf => h.filed (lift hf),
    fun hf => h.keepable (lift hf)⟩

theorem whole_tag (h : set.Fits schema type) {unit : RawUnit} (hu : unit ∈ set.units)
    : unit.whole.tag = unit.tag :=
  congrArg RawUnit.tag (h.of_mem_units hu).whole.2.1

/-- Of all kept units, written as whole units, those with a tag are those that are kept under it. -/
theorem filter_whole (h : set.Fits schema type) (tag : Nat)
    : (set.units.map RawUnit.whole).filter (fun unit => unit.tag == tag)
      = (set.unitsAt tag).map RawUnit.whole := by
  induction set with
  | nil => rfl
  | cons entry rest ih =>
      rcases entry with ⟨head, units⟩
      have hhead : TagMap.find? ((head, units) :: rest) head = some units := by
        simp [TagMap.find?]
      have htags : ∀ unit ∈ units, unit.whole.tag = head := fun unit hu => by
        rw [h.whole_tag (List.mem_flatMap.mpr ⟨_, List.mem_cons_self, hu⟩)]
        exact h.filed hhead unit hu
      have hrest := ih h.tail
      rw [UnknownSet.units, List.flatMap_cons, List.map_append, List.filter_append,
        ← UnknownSet.units, hrest]
      by_cases he : head = tag
      · subst he
        have hnone : unitsAt rest head = [] := by
          rw [unitsAt, h.ascending.find?_tail_head, Option.getD_none]
        have hall : (units.map RawUnit.whole).filter (fun unit => unit.tag == head)
            = units.map RawUnit.whole := by
          apply List.filter_eq_self.mpr
          intro unit hm
          obtain ⟨raw, hr, rfl⟩ := List.mem_map.mp hm
          simpa using htags raw hr
        rw [hall, hnone, unitsAt, hhead, Option.getD_some, List.map_nil,
          List.append_nil]
      · have hnone : (units.map RawUnit.whole).filter (fun unit => unit.tag == tag) = [] := by
          apply List.filter_eq_nil_iff.mpr
          intro unit hm
          obtain ⟨raw, hr, rfl⟩ := List.mem_map.mp hm
          simpa [htags raw hr] using he
        rw [hnone, List.nil_append, unitsAt, unitsAt, TagMap.find?, if_neg he]

/-- Of all kept units, those with a tag are those that are kept under it. -/
theorem filter_units (h : set.Fits schema type) (tag : Nat)
    : set.units.filter (fun unit => unit.tag == tag) = set.unitsAt tag := by
  calc set.units.filter (fun unit => unit.tag == tag)
    _ = ((set.units.map RawUnit.whole).map WireUnit.raw).filter (fun unit => unit.tag == tag) := by
      rw [RawUnit.raw_whole_all (fun unit hu => h.of_mem_units hu)]
    _ = ((set.units.map RawUnit.whole).filter (fun unit => unit.tag == tag)).map WireUnit.raw :=
      List.filter_map
    _ = ((set.unitsAt tag).map RawUnit.whole).map WireUnit.raw := by rw [h.filter_whole]
    _ = set.unitsAt tag :=
      RawUnit.raw_whole_all (fun unit hu => (h.of_mem_unitsAt hu).2)

theorem dropWhile (h : set.Fits schema type) (p : Nat × List RawUnit → Bool)
    : UnknownSet.Fits schema type (set.dropWhile p) := by
  have lift {tag : Nat} {units : List RawUnit}
      (hf : TagMap.find? (List.dropWhile p set) tag = some units)
      : TagMap.find? set tag = some units :=
    h.ascending.find?_of_mem ((List.dropWhile_sublist p).subset (TagMap.mem_of_find? hf))
  exact ⟨h.ascending.dropWhile p, fun hf => h.nonempty (lift hf), fun hf => h.filed (lift hf),
    fun hf => h.keepable (lift hf)⟩

theorem takeWhile (h : set.Fits schema type) (p : Nat × List RawUnit → Bool)
    : UnknownSet.Fits schema type (set.takeWhile p) := by
  have lift {tag : Nat} {units : List RawUnit}
      (hf : TagMap.find? (List.takeWhile p set) tag = some units)
      : TagMap.find? set tag = some units :=
    h.ascending.find?_of_mem ((List.takeWhile_sublist p).subset (TagMap.mem_of_find? hf))
  exact ⟨h.ascending.takeWhile p, fun hf => h.nonempty (lift hf), fun hf => h.filed (lift hf),
    fun hf => h.keepable (lift hf)⟩

end UnknownSet.Fits

theorem Slot.tag_of_mem_toUnits {field : Field} {slot : Slot} {unit : WireUnit}
    (h : unit ∈ slot.toUnits field)
    : unit.tag = field.tag := by
  cases slot with
  | single value =>
      rw [List.mem_singleton.mp h]
      rfl
  | repeated values =>
      rw [toUnits] at h
      split at h
      · simp at h
      · split at h
        · rw [List.mem_singleton.mp h]
          rfl
        · obtain ⟨payload, _, rfl⟩ := List.mem_map.mp h
          rfl

/-- The units that a type's field with a tag is written as; none if the tag is not declared. -/
def MessageType.unitsAt (type : MessageType) (tag : Nat) : Option Slot → List WireUnit
  | none => []
  | some slot =>
      match type.field? tag with
      | some field => slot.toUnits field
      | none => []

theorem MessageType.filter_unitsAt {tag : Nat} {slot : Slot} (other : Nat)
    : (type.unitsAt tag (some slot)).filter (fun unit => unit.tag == other)
      = if tag = other then type.unitsAt tag (some slot) else [] := by
  have htag : ∀ unit ∈ type.unitsAt tag (some slot), unit.tag = tag := by
    intro unit hu
    rw [unitsAt] at hu
    split at hu
    · next field hf =>
        rw [Slot.tag_of_mem_toUnits hu, tag_of_field? hf]
    · simp at hu
  split
  · next he => exact List.filter_eq_self.mpr (fun unit hu => by simp [htag unit hu, he])
  · next he => exact List.filter_eq_nil_iff.mpr (fun unit hu => by simp [htag unit hu, he])

theorem slotsToUnits_cons (tag : Nat) (slot : Slot) (rest : List (Nat × Slot))
    (unknown : UnknownSet)
    : slotsToUnits type ((tag, slot) :: rest) unknown
      = (UnknownSet.units (unknown.takeWhile (fun entry => entry.1 < tag))).map RawUnit.whole
        ++ type.unitsAt tag (some slot)
        ++ slotsToUnits type rest (unknown.dropWhile (fun entry => entry.1 < tag)) := by
  cases hf : type.field? tag <;> simp only [slotsToUnits, MessageType.unitsAt, hf]

/-- The units of slots and kept units with a tag: first those of the slot, then the kept ones. -/
theorem filter_slotsToUnits {slots : List (Nat × Slot)} (hs : TagMap.Ascending slots)
    {unknown : UnknownSet} (hu : unknown.Fits schema type) (tag : Nat)
    : (slotsToUnits type slots unknown).filter (fun unit => unit.tag == tag)
      = type.unitsAt tag (TagMap.find? slots tag)
        ++ (unknown.unitsAt tag).map RawUnit.whole := by
  induction slots generalizing unknown with
  | nil =>
      rw [slotsToUnits, hu.filter_whole]
      rfl
  | cons entry rest ih =>
      rcases entry with ⟨head, slot⟩
      rw [slotsToUnits_cons, List.filter_append, List.filter_append,
        (hu.takeWhile _).filter_whole, MessageType.filter_unitsAt, ih hs.tail (hu.dropWhile _)]
      simp only [UnknownSet.unitsAt, hu.ascending.find?_takeWhile, hu.ascending.find?_dropWhile,
        TagMap.find?]
      -- Kept units with the tag go before the slot at the head only if their tag is smaller.
      rcases Nat.lt_trichotomy tag head with hlt | rfl | hlt
      · have hrest : TagMap.find? rest tag = none :=
          TagMap.find?_eq_none_of_forall_lt (fun other ho => Nat.lt_trans hlt (hs.head_lt other ho))
        simp [hlt, Nat.ne_of_gt hlt, hrest, MessageType.unitsAt]
      · simp [hs.find?_tail_head, MessageType.unitsAt]
      · simp [Nat.not_lt_of_gt hlt, Nat.ne_of_lt hlt]

/-- The units of a conforming record with a tag. -/
theorem Record.Conforms.filter_toUnits {record : Record} (h : record.Conforms schema) (tag : Nat)
    : record.toUnits.filter (fun unit => unit.tag == tag)
      = record.type.unitsAt tag (record.slot? tag)
        ++ (record.unknown.unitsAt tag).map RawUnit.whole :=
  filter_slotsToUnits h.here.ascending h.here.unknown tag

/-- The units of a slot are among those of its record. -/
theorem Record.Conforms.mem_toUnits {record : Record} (h : record.Conforms schema) {tag : Nat}
    {slot : Slot} {field : Field} (hs : record.slot? tag = some slot)
    (hf : record.type.field? tag = some field) {unit : WireUnit} (hu : unit ∈ slot.toUnits field)
    : unit ∈ record.toUnits := by
  have hm : unit ∈ record.toUnits.filter (fun other => other.tag == tag) := by
    rw [h.filter_toUnits, hs]
    simp only [MessageType.unitsAt, hf]
    exact List.mem_append_left _ hu
  exact (List.mem_filter.mp hm).1

/-- A record is at least as long as each of its units. -/
theorem Record.length_le_of_mem_toUnits {record : Record} {unit : WireUnit}
    (hu : unit ∈ record.toUnits)
    : unit.bytes.length ≤ record.encoding.length := by
  rw [record.encoding_eq]
  exact (List.sublist_flatten_of_mem (List.mem_map_of_mem hu)).length_le

/-- The payload of a value is cut off alone by the wire kind of the kind that the value fits. -/
theorem Value.Fits.payload?_toPayload {kind : Kind} {value : Value} (h : value.Fits schema kind)
    (hlen : value.toPayload.bytes.length < 2 ^ 64)
    : kind.wireKind.payload? value.toPayload.bytes = some (value.toPayload, []) := by
  cases value with
  | scalar scalar =>
      rw [toPayload, Scalar.bytes_toPayload] at hlen
      rw [toPayload]
      exact Scalar.payload?_toPayload h.ofKind hlen
  | message record =>
      simp only [toPayload, Payload.bytes, Payload.delimited, List.length_append] at hlen
      rw [h.kind_eq, toPayload]
      exact Payload.delimited_alone (by omega)

theorem Field.standing_unit {field : Field} (hpos : field.tag ≠ 0) (hmax : field.tag ≤ maxTag)
    {wire : WireKind} {payload : Payload}
    (h : wire.payload? payload.bytes = some (payload, []))
    : (field.unit wire payload).Standing :=
  WireUnit.standing_of_payload hpos hmax h

theorem Slot.Conforms.standing {field : Field} (hpos : field.tag ≠ 0) (hmax : field.tag ≤ maxTag)
    {slot : Slot} (h : slot.Conforms schema field) {unit : WireUnit}
    (hu : unit ∈ slot.toUnits field) (hlen : unit.bytes.length < 2 ^ 64)
    : unit.Standing := by
  have payload_lt {wire : WireKind} {payload : Payload}
      (he : unit = field.unit wire payload)
      : payload.bytes.length < 2 ^ 64 := by
    rw [he, WireUnit.bytes, List.length_append] at hlen
    exact Nat.lt_of_le_of_lt (Nat.le_add_left _ _) hlen
  have ofValue {value : Value} (hv : value ∈ slot.values)
      (he : unit = field.unit field.wireKind value.toPayload)
      : unit.Standing := by
    rw [he]
    exact Field.standing_unit hpos hmax ((h.value hv).fits.payload?_toPayload (payload_lt he))
  cases slot with
  | single value => exact ofValue List.mem_cons_self (List.mem_singleton.mp hu)
  | repeated values =>
      rw [toUnits] at hu
      split at hu
      · simp at hu
      · split at hu
        · have he := List.mem_singleton.mp hu
          have hrun := payload_lt he
          simp only [Payload.bytes, Payload.delimited, List.length_append] at hrun
          rw [he]
          exact Field.standing_unit hpos hmax (Payload.delimited_alone (by omega))
        · rw [toPayloads_eq_map, List.map_map] at hu
          obtain ⟨value, hv, rfl⟩ := List.mem_map.mp hu
          exact ofValue hv rfl

/-- Every unit of a conforming record of a built schema can be cut off again, unless the record is
too long for its lengths to fit in a varint.
-/
theorem Record.Conforms.standing {record : Record} (h : record.Conforms schema)
    (built : schema.Built) (hlen : record.encoding.length < 2 ^ 64)
    : ∀ unit ∈ record.toUnits, unit.Standing := by
  intro unit hu
  have hle := length_le_of_mem_toUnits hu
  have hm : unit ∈ record.toUnits.filter (fun other => other.tag == unit.tag) :=
    List.mem_filter.mpr ⟨hu, by simp⟩
  rw [h.filter_toUnits] at hm
  rcases List.mem_append.mp hm with hm | hm
  · cases hs : record.slot? unit.tag with
    | none => simp [hs, MessageType.unitsAt] at hm
    | some slot =>
        obtain ⟨field, hf, hc⟩ := h.slot hs
        simp only [hs, MessageType.unitsAt, hf] at hm
        obtain ⟨hpos, hmax⟩ := (built.field_legal h.here.typed hf).1
        exact hc.standing hpos hmax hm (by omega)
  · obtain ⟨raw, hr, rfl⟩ := List.mem_map.mp hm
    exact (h.here.unknown.of_mem_unitsAt hr).2.whole.1

/-- The bytes of a conforming record are divided into the units that were written. -/
theorem Record.Conforms.units?_encoding {record : Record} (h : record.Conforms schema)
    (built : schema.Built) (hlen : record.encoding.length < 2 ^ 64)
    : WireUnit.units? record.encoding = some record.toUnits := by
  rw [record.encoding_eq]
  exact WireUnit.units?_flatMap (h.standing built hlen)

end TagWire
