import TagWire.Proofs.Records.Merging
import TagWire.Record.Equality

/-!
Records without their packed flags. Whether a field is packed is a matter of how it is written; two
schemas that differ in nothing else have the same types once the flags are taken off. Merging and
sameness do not look at the flags.
-/

namespace TagWire

/-- A field without its packed flag. -/
def Field.unpacked (field : Field) : Field := { field with packed := false }

/-- A message type without the packed flags of its fields. -/
def MessageType.unpacked (type : MessageType) : MessageType :=
  { type with fields := type.fields.map Field.unpacked }

/-- A schema without packed flags. -/
def Schema.unpacked (schema : Schema) : Schema :=
  { schema with messages := schema.messages.map MessageType.unpacked }

mutual

/-- A value without the packed flags in the types of its records. -/
def Value.unpacked : Value → Value
  | .scalar value => .scalar value
  | .message record => .message record.unpacked

/-- A slot without the packed flags in the types of its records. -/
def Slot.unpacked : Slot → Slot
  | .single value => .single value.unpacked
  | .repeated values => .repeated (unpackedValues values)

/-- Values without the packed flags in the types of their records. -/
def unpackedValues : List Value → List Value
  | [] => []
  | value :: rest => value.unpacked :: unpackedValues rest

/-- Slots without the packed flags in the types of their records. -/
def unpackedSlots : List (Nat × Slot) → List (Nat × Slot)
  | [] => []
  | (tag, slot) :: rest => (tag, slot.unpacked) :: unpackedSlots rest

/-- A record without the packed flags in its type and in those of all records nested in it. -/
def Record.unpacked : Record → Record
  | ⟨schema, type, slots, unknown⟩ =>
      ⟨schema.unpacked, type.unpacked, unpackedSlots slots, unknown⟩

end

theorem MessageType.field?_unpacked (type : MessageType) (tag : Nat)
    : type.unpacked.field? tag = (type.field? tag).map Field.unpacked := by
  rw [field?, unpacked, List.find?_map]
  rfl

theorem Schema.message?_unpacked (schema : Schema) (name : String)
    : schema.unpacked.message? name = (schema.message? name).map MessageType.unpacked := by
  rw [message?, unpacked, List.find?_map]
  rfl

theorem unpackedValues_eq_map (values : List Value)
    : unpackedValues values = values.map Value.unpacked := by
  induction values with
  | nil => rfl
  | cons value rest ih => rw [unpackedValues, ih, List.map_cons]

theorem unpackedSlots_eq_map (slots : List (Nat × Slot))
    : unpackedSlots slots = TagMap.mapValues Slot.unpacked slots := by
  induction slots with
  | nil => rfl
  | cons entry rest ih =>
      rw [unpackedSlots, ih]
      rfl

mutual

theorem Value.unpacked_over (held : Option Slot) (value : Value)
    : (value.over held).unpacked = value.unpacked.over (held.map Slot.unpacked) := by
  cases value with
  | scalar value => simp only [Value.over, Value.unpacked]
  | message theirs =>
      rcases held with _ | ⟨_ | mine⟩ | _
      · simp [Value.over, Value.unpacked]
      · simp [Value.over, Value.unpacked, Slot.unpacked]
      · simp only [Value.over, Value.unpacked, Option.map_some, Slot.unpacked,
          mine.unpacked_overlay theirs]
      · simp [Value.over, Value.unpacked, Slot.unpacked]

theorem Slot.unpacked_over (held : Option Slot) (slot : Slot)
    : (slot.over held).unpacked = slot.unpacked.over (held.map Slot.unpacked) := by
  cases slot with
  | single value => simp only [Slot.over, Slot.unpacked, value.unpacked_over]
  | repeated values =>
      rcases held with _ | _ | mine
      · simp [Slot.over, Slot.unpacked]
      · simp [Slot.over, Slot.unpacked]
      · simp only [Slot.over, Slot.unpacked, Option.map_some, unpackedValues_eq_map,
          List.map_append]

theorem unpackedSlots_slotsOver (mine theirs : List (Nat × Slot))
    : unpackedSlots (slotsOver mine theirs)
      = slotsOver (unpackedSlots mine) (unpackedSlots theirs) := by
  cases theirs with
  | nil => simp only [slotsOver, unpackedSlots]
  | cons entry rest =>
      rcases entry with ⟨tag, slot⟩
      have hheld : (TagMap.find? mine tag).map Slot.unpacked
          = TagMap.find? (unpackedSlots mine) tag := by
        rw [unpackedSlots_eq_map, TagMap.find?_mapValues]
      rw [slotsOver, unpackedSlots_slotsOver _ rest, unpackedSlots, slotsOver, ← hheld,
        ← slot.unpacked_over, unpackedSlots_eq_map, TagMap.mapValues_insert,
        ← unpackedSlots_eq_map]

/-- Taking off the flags commutes with merging, by mutual induction over what is merged. -/
theorem Record.unpacked_overlay (mine theirs : Record)
    : (mine.overlay theirs).unpacked = mine.unpacked.overlay theirs.unpacked := by
  cases theirs with
  | mk _ _ slots unknown =>
      cases mine
      simp only [Record.overlay, Record.unpacked, unpackedSlots_slotsOver _ slots]

end

mutual

theorem Value.same_unpacked (value other : Value)
    : value.unpacked.same other.unpacked = value.same other := by
  cases value with
  | scalar value => cases other <;> simp only [Value.unpacked, Value.same]
  | message record =>
      cases other with
      | scalar other => simp only [Value.unpacked, Value.same]
      | message other => simp only [Value.unpacked, Value.same, record.same_unpacked]

theorem Slot.same_unpacked (slot other : Slot)
    : slot.unpacked.same other.unpacked = slot.same other := by
  cases slot with
  | single value =>
      cases other with
      | single other => simp only [Slot.unpacked, Slot.same, value.same_unpacked]
      | repeated others => simp only [Slot.unpacked, Slot.same]
  | repeated values =>
      cases other with
      | single other => simp only [Slot.unpacked, Slot.same]
      | repeated others => simp only [Slot.unpacked, Slot.same, sameValues_unpacked values]

theorem sameValues_unpacked (values others : List Value)
    : sameValues (unpackedValues values) (unpackedValues others) = sameValues values others := by
  cases values with
  | nil => cases others <;> simp only [unpackedValues, sameValues]
  | cons value rest =>
      cases others with
      | nil => simp only [unpackedValues, sameValues]
      | cons other more =>
          simp only [unpackedValues, sameValues, value.same_unpacked, sameValues_unpacked rest]

theorem sameSlots_unpacked (slots others : List (Nat × Slot))
    : sameSlots (unpackedSlots slots) (unpackedSlots others) = sameSlots slots others := by
  cases slots with
  | nil => cases others <;> simp only [unpackedSlots, sameSlots]
  | cons entry rest =>
      rcases entry with ⟨tag, slot⟩
      cases others with
      | nil => simp only [unpackedSlots, sameSlots]
      | cons other more =>
          rcases other with ⟨otherTag, held⟩
          simp only [unpackedSlots, sameSlots, slot.same_unpacked, sameSlots_unpacked rest]

/-- Whether records are the same does not depend on packed flags, by mutual induction. -/
theorem Record.same_unpacked (record other : Record)
    : record.unpacked.same other.unpacked = record.same other := by
  cases record with
  | mk _ _ slots _ =>
      cases other
      simp only [Record.unpacked, Record.same, sameSlots_unpacked slots, MessageType.unpacked]

end

end TagWire
