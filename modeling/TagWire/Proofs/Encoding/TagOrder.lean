import TagWire.Proofs.Encoding.Checking
import TagWire.Proofs.Records.ForeignMerging

/-!
The order in which a record is written. Its bytes go by tags, ascending, and at each tag the units
of the slot come first, in the order of its values, and then those that were kept, in the order in
which they came. Nothing is left out and nothing is written twice.
-/

namespace TagWire

-----------------------------------------------------------------------------------------
-- What stands at a tag
-----------------------------------------------------------------------------------------

/-- The bytes of a value in a unit, after the key. A record stands behind its length as it would be
written alone.
-/
def Value.payloadBytes : Value → Bytes
  | .scalar value => value.payload
  | .message record => Scalar.delimited record.bytes

/-- The bytes of a field's key. -/
def Field.keyBytes (field : Field) (wire : WireKind) : Bytes :=
  Varint.encode (Key.pack field.tag wire)

/-- The bytes of a value as a unit of its own. -/
def Field.unitBytes (field : Field) (value : Value) : Bytes :=
  field.keyBytes field.wireKind ++ value.payloadBytes

/-- The bytes of a slot: a unit for the value or for each element, or one unit for the run of all
elements if they are packed and there are any.
-/
def Slot.unitsBytes (field : Field) : Slot → Bytes
  | .single value => field.unitBytes value
  | .repeated values =>
      if field.packed && !values.isEmpty then
        field.keyBytes .lengthDelimited ++ Scalar.delimited (values.flatMap Value.payloadBytes)
      else values.flatMap field.unitBytes

/-- The bytes of a record's units with a tag: those of the slot, and then those that were kept. -/
def Record.bytesAt (record : Record) (tag : Nat) : Bytes :=
  (match record.type.field? tag, record.slot? tag with
    | some field, some slot => slot.unitsBytes field
    | _, _ => [])
  ++ (record.unknown.unitsAt tag).flatMap RawUnit.bytes

theorem Value.bytes_toPayload (value : Value) : value.toPayload.bytes = value.payloadBytes := by
  cases value with
  | scalar scalar => exact scalar.bytes_toPayload
  | message record =>
      rw [payloadBytes, record.bytes_eq_encoding]
      rfl

theorem Field.bytes_unit (field : Field) (value : Value)
    : (field.unit field.wireKind value.toPayload).bytes = field.unitBytes value := by
  rw [unitBytes, ← value.bytes_toPayload]
  rfl

/-- The units of a slot have the slot's bytes, if no record is packed. -/
theorem Slot.flatMap_toUnits {field : Field} {slot : Slot}
    (scalars
      : ∀ values,
          slot = .repeated values
          → field.packed = true
          → ∀ value ∈ values, ∃ scalar, value = .scalar scalar)
    : (slot.toUnits field).flatMap WireUnit.bytes = slot.unitsBytes field := by
  cases slot with
  | single value =>
      rw [toUnits, List.flatMap_singleton, unitsBytes, field.bytes_unit]
  | repeated values =>
      rw [toUnits, unitsBytes]
      by_cases he : values.isEmpty = true
      · simp [List.isEmpty_iff.mp he]
      · by_cases hp : field.packed = true
        · have run : packedPayload values = values.flatMap Value.payloadBytes := by
            rw [Reference.packedPayload_eq (scalars values rfl hp), List.flatMap_map]
            exact List.flatMap_congr (fun value _ => value.bytes_toPayload)
          rw [if_neg he, if_pos hp, if_pos (by simp [he, hp]), List.flatMap_singleton, ← run]
          rfl
        · rw [if_neg he, if_neg hp, if_neg (by simp [hp]), toPayloads_eq_map, List.map_map,
            List.flatMap_map]
          exact List.flatMap_congr (fun value _ => field.bytes_unit value)

-----------------------------------------------------------------------------------------
-- Going by tags
-----------------------------------------------------------------------------------------

section Tags

variable {type : MessageType} {tag : Nat} {slots : List (Nat × Slot)} {unknown : UnknownSet}

/-- A slot is written first if no unit was kept under a smaller tag. -/
theorem slotsToUnits_slot {slot : Slot} (first : ∀ entry ∈ unknown, tag ≤ entry.1)
    : slotsToUnits type ((tag, slot) :: slots) unknown
      = type.unitsAt tag (some slot) ++ slotsToUnits type slots unknown := by
  rw [slotsToUnits_cons]
  cases unknown with
  | nil => rfl
  | cons entry rest =>
      have hle : ¬ entry.1 < tag := Nat.not_lt.mpr (first entry List.mem_cons_self)
      simp [hle, UnknownSet.units]

/-- Kept units are written first if all slots are at larger tags. -/
theorem slotsToUnits_kept {units : List RawUnit} (first : ∀ entry ∈ slots, tag < entry.1)
    : slotsToUnits type slots ((tag, units) :: unknown)
      = units.map RawUnit.whole ++ slotsToUnits type slots unknown := by
  cases slots with
  | nil => simp [slotsToUnits, UnknownSet.units]
  | cons entry rest =>
      have hlt : tag < entry.1 := first entry List.mem_cons_self
      rw [slotsToUnits_cons, slotsToUnits_cons]
      simp [hlt, UnknownSet.units]

/-- What stands at a tag below which there are none is written first. -/
theorem slotsToUnits_first (hs : TagMap.Ascending slots) (hu : TagMap.Ascending unknown)
    (slotTags : ∀ entry ∈ slots, tag ≤ entry.1) (keptTags : ∀ entry ∈ unknown, tag ≤ entry.1)
    : slotsToUnits type slots unknown
      = type.unitsAt tag (TagMap.find? slots tag)
        ++ (unknown.unitsAt tag).map RawUnit.whole
        ++ slotsToUnits type (TagMap.erase tag slots) (TagMap.erase tag unknown) := by
  have kept
      : slotsToUnits type (TagMap.erase tag slots) unknown
        = (unknown.unitsAt tag).map RawUnit.whole
          ++ slotsToUnits type (TagMap.erase tag slots) (TagMap.erase tag unknown) := by
    have larger : ∀ entry ∈ TagMap.erase tag slots, tag < entry.1 := by
      intro entry he
      obtain ⟨hm, hne⟩ := List.mem_filter.mp he
      exact Nat.lt_of_le_of_ne (slotTags entry hm) (Ne.symm (by simpa using hne))
    rw [UnknownSet.unitsAt]
    rcases hu.first_or_absent keptTags with ⟨units, hf, hm⟩ | ⟨hf, hm⟩
    · rw [hf]
      conv => lhs; rw [hm]
      exact slotsToUnits_kept larger
    · rw [hf, hm]
      rfl
  rw [List.append_assoc, ← kept]
  rcases hs.first_or_absent slotTags with ⟨slot, hf, hm⟩ | ⟨hf, hm⟩
  · rw [hf]
    conv => lhs; rw [hm]
    exact slotsToUnits_slot keptTags
  · rw [hf, hm]
    rfl

/-- Slots and kept units are written tag by tag, by induction on the tags. -/
theorem slotsToUnits_eq_flatMap (hs : TagMap.Ascending slots) (hu : TagMap.Ascending unknown)
    {tags : List Nat} (ascending : tags.Pairwise (· < ·))
    (slotTags : ∀ entry ∈ slots, entry.1 ∈ tags) (keptTags : ∀ entry ∈ unknown, entry.1 ∈ tags)
    : slotsToUnits type slots unknown
      = tags.flatMap (fun tag =>
          type.unitsAt tag (TagMap.find? slots tag)
          ++ (unknown.unitsAt tag).map RawUnit.whole) := by
  induction tags generalizing slots unknown with
  | nil =>
      obtain rfl : slots = [] := List.eq_nil_iff_forall_not_mem.mpr (by simpa using slotTags)
      obtain rfl : unknown = [] := List.eq_nil_iff_forall_not_mem.mpr (by simpa using keptTags)
      rfl
  | cons tag tags ih =>
      obtain ⟨smallest, more⟩ := List.pairwise_cons.mp ascending
      rw [slotsToUnits_first hs hu (TagMap.le_of_covered ascending slotTags)
          (TagMap.le_of_covered ascending keptTags),
        ih hs.erase hu.erase more (fun entry => TagMap.mem_of_mem_erase slotTags)
          (fun entry => TagMap.mem_of_mem_erase keptTags),
        List.flatMap_cons]
      refine congrArg (_ ++ ·) (List.flatMap_congr (fun other ho => ?_))
      have hlt := smallest other ho
      rw [UnknownSet.unitsAt, UnknownSet.unitsAt, TagMap.find?_erase_of_lt hlt,
        TagMap.find?_erase_of_lt hlt]

end Tags

/-- Units are kept under ascending tags, and some under each of these. -/
structure UnknownSet.Ordered (set : UnknownSet) : Prop where
  ascending : TagMap.Ascending set
  nonempty : ∀ {tag units}, TagMap.find? set tag = some units → units ≠ []

theorem UnknownSet.Fits.ordered {schema : Schema} {type : MessageType} {set : UnknownSet}
    (h : set.Fits schema type)
    : set.Ordered :=
  ⟨h.ascending, h.nonempty⟩

namespace Record

/-- The tags at which a record holds something, ascending. -/
def tags (record : Record) : List Nat :=
  (TagMap.tabulate (fun _ => some ())
    (record.slots.map Prod.fst ++ record.unknown.map Prod.fst)).map Prod.fst

theorem ascending_tags (record : Record) : record.tags.Pairwise (· < ·) :=
  TagMap.ascending_tabulate _ _

theorem mem_tags (record : Record) (tag : Nat)
    : tag ∈ record.tags
      ↔ tag ∈ record.slots.map Prod.fst ∨ tag ∈ record.unknown.map Prod.fst := by
  rw [tags, TagMap.mem_map_fst_iff (TagMap.ascending_tabulate _ _), TagMap.find?_tabulate,
    ← List.mem_append]
  simp

variable {record : Record}

/-- A record holds something at a tag exactly if a field is set there or a unit was kept. -/
theorem mem_tags_iff (ascending : TagMap.Ascending record.slots) (ordered : record.unknown.Ordered)
    (tag : Nat)
    : tag ∈ record.tags ↔ record.isSet tag = true ∨ record.unknown.unitsAt tag ≠ [] := by
  have kept : (TagMap.find? record.unknown tag).isSome = true
      ↔ record.unknown.unitsAt tag ≠ [] := by
    rw [UnknownSet.unitsAt]
    cases hf : TagMap.find? record.unknown tag with
    | none => simp
    | some units => simpa using ordered.nonempty hf
  rw [mem_tags, TagMap.mem_map_fst_iff ascending, TagMap.mem_map_fst_iff ordered.ascending, kept]
  rfl

/-- What is written for a tag are the units of the slot there and the units that were kept. -/
theorem Respects.bytesAt_eq (respects : record.Respects)
    (declared : MessageType.describe record.type.name record.type.fields = .ok record.type)
    (tag : Nat)
    : (record.type.unitsAt tag (record.slot? tag)
        ++ (record.unknown.unitsAt tag).map RawUnit.whole).flatMap WireUnit.bytes
      = record.bytesAt tag := by
  rw [List.flatMap_append, flatMap_bytes_whole, bytesAt]
  refine congrArg (· ++ _) ?_
  cases hs : record.slot? tag with
  | none =>
      rw [MessageType.unitsAt]
      cases record.type.field? tag <;> rfl
  | some slot =>
      obtain ⟨field, hf, shape⟩ := respects.slot hs
      simp only [MessageType.unitsAt, hf]
      refine Slot.flatMap_toUnits (fun values he hp value hv => ?_)
      obtain rfl := he
      have legal := MessageType.field_legal declared (List.mem_of_find?_eq_some hf)
      refine Reference.exists_scalar_of_packable (legal.2 hp).2 ?_
      cases shape with
      | repeated _ ofKind => exact ofKind value hv

/-- A record that respects its type is written tag by tag, in ascending order. At each tag the units
of the slot there, which is declared, come before those that were kept. The tags are those at which
a field is set or a unit was kept, and to go through them is to go through every value of every slot
and through every kept unit once, in order.
-/
theorem Respects.bytes_by_tag (respects : record.Respects)
    (declared : MessageType.describe record.type.name record.type.fields = .ok record.type)
    (ordered : record.unknown.Ordered)
    : record.tags.Pairwise (· < ·)
      ∧ (∀ tag,
        tag ∈ record.tags ↔ record.isSet tag = true ∨ record.unknown.unitsAt tag ≠ [])
      ∧ record.bytes = record.tags.flatMap record.bytesAt
      ∧ (∀ tag slot,
        record.slot? tag = some slot
        → ∃ field,
            record.type.field? tag = some field
            ∧ record.bytesAt tag
              = slot.unitsBytes field ++ (record.unknown.unitsAt tag).flatMap RawUnit.bytes)
      ∧ record.tags.flatMap record.valuesAt
        = record.slots.flatMap (fun entry => entry.2.values)
      ∧ record.tags.flatMap record.unknown.unitsAt = record.unknown.units := by
  have ascending := record.ascending_tags
  have slotTags : ∀ entry ∈ record.slots, entry.1 ∈ record.tags :=
    fun entry he => (record.mem_tags _).mpr (.inl (List.mem_map_of_mem he))
  have keptTags : ∀ entry ∈ record.unknown, entry.1 ∈ record.tags :=
    fun entry he => (record.mem_tags _).mpr (.inr (List.mem_map_of_mem he))
  refine ⟨ascending, mem_tags_iff respects.ascending ordered, ?_, fun tag slot hs => ?_, ?_, ?_⟩
  · rw [record.bytes_eq_encoding, record.encoding_eq, toUnits,
      slotsToUnits_eq_flatMap respects.ascending ordered.ascending ascending slotTags keptTags,
      List.flatMap_assoc]
    exact List.flatMap_congr (fun tag _ => respects.bytesAt_eq declared tag)
  · obtain ⟨field, hf, _⟩ := respects.slot hs
    exact ⟨field, hf, by simp only [bytesAt, hf, hs]⟩
  · exact respects.ascending.flatMap_find? ascending slotTags Slot.values
  · refine Eq.trans (List.flatMap_congr (fun tag _ => ?_))
      (ordered.ascending.flatMap_find? ascending keptTags id)
    rw [Option.map_id]
    rfl

end Record

namespace AddressBook

/-- A telephone at home, with a unit for a sort that is not declared. -/
def secondPhone : Record :=
  ⟨schema, phone, [(2, .single (.scalar (.enum 1)))], [(2, [⟨2, .varint, [0x10, 0x09]⟩])]⟩

/-- A person with that telephone, and with a unit under a tag that is not declared. -/
def newcomer : Record :=
  ⟨schema, person,
    [(2, .single (.scalar (.int32 5))), (4, .repeated [.message secondPhone])],
    [(5, [⟨5, .varint, [0x28, 0x07]⟩])]⟩

/-- The person and the telephone are read, and the one is given the other. -/
theorem conforms_newcomer : newcomer.Conforms schema := by
  let caller : Record := { newcomer with slots := [(2, .single (.scalar (.int32 5)))] }
  have read : Record.decode schema person.name [0x28, 0x07, 0x10, 0x05] {} = .ok caller := by
    rfl
  have telephone : Record.decode schema phone.name [0x10, 0x09, 0x10, 0x01] {}
      = .ok secondPhone := by
    rfl
  have given : ∀ nested, Value.message secondPhone = .message nested → nested.Conforms schema := by
    rintro _ ⟨⟩
    exact (Record.conforms_of_decode telephone).1
  have reached : caller.append 4 (.message secondPhone) = .ok newcomer := by rfl
  exact (Record.append_keeps (Record.conforms_of_decode read).1 given reached).1

/-- The units of the person come in another order than they were read in. -/
theorem bytes_by_tag_newcomer
    : newcomer.Respects
      ∧ newcomer.unknown.Ordered
      ∧ newcomer.tags = [2, 4, 5]
      ∧ newcomer.bytes = newcomer.bytesAt 2 ++ newcomer.bytesAt 4 ++ newcomer.bytesAt 5
      ∧ newcomer.bytes = [0x10, 0x05, 0x22, 0x04, 0x10, 0x01, 0x10, 0x09, 0x28, 0x07] := by
  have htags : newcomer.tags = [2, 4, 5] := by decide
  have respects := conforms_newcomer.respects
  have ordered := conforms_newcomer.here.unknown.ordered
  have declared : MessageType.describe person.name person.fields = .ok person :=
    describe_messages person (by decide)
  obtain ⟨_, _, hbytes, _⟩ := Record.Respects.bytes_by_tag respects declared ordered
  refine ⟨respects, ordered, htags, ?_, by decide +kernel⟩
  rw [hbytes, htags]
  simp

end AddressBook

end TagWire
