import TagWire.Decoding.Basic
import TagWire.Proofs.Decoding.ReferenceLaws

/-!
Storing what is read, seen as merging. To put a value into a record that is being read, or to keep a
unit there, is to merge the record that the reading alone makes up into it.
-/

namespace TagWire

namespace Reference

variable {schema : Schema} {type : MessageType}

theorem gather_kept (unit : RawUnit)
    : gather schema type [⟨unit.tag, [], [unit]⟩]
      = ⟨schema, type, [], [(unit.tag, [unit])]⟩ := by
  have hslot : ((type.field? unit.tag).bind fun field => slotOf? field []) = none := by
    cases type.field? unit.tag <;> rfl
  simp only [gather, List.map_cons, List.map_nil, TagMap.tabulate, Reading.valuesAt_singleton,
    Reading.keptAt_singleton, if_true, hslot, entryOf?, TagMap.insert]

theorem gather_value {field : Field} (hf : type.field? field.tag = some field) (value : Value)
    : gather schema type [⟨field.tag, [value], []⟩]
      = ⟨schema, type,
          [(field.tag, if field.isRepeated then .repeated [value] else .single value)], []⟩ := by
  simp only [gather, List.map_cons, List.map_nil, TagMap.tabulate, Reading.valuesAt_singleton,
    Reading.keptAt_singleton, if_true, hf, Option.bind_some, slotOf?, List.foldl_nil, entryOf?,
    TagMap.insert]

/-- A record after what a reading says was merged into it. -/
def absorb (schema : Schema) (type : MessageType) (record : Record) (reading : Reading) : Record :=
  record.overlay (gather schema type [reading])

/-- To keep a unit is to merge the record that holds nothing else. -/
theorem keep_eq_absorb (schema : Schema) (type : MessageType) (record : Record) (unit : RawUnit)
    : record.keep unit = absorb schema type record ⟨unit.tag, [], [unit]⟩ := by
  rw [absorb, gather_kept, Record.overlay, slotsOver]
  rfl

/-- To merge the record that holds one slot is to put that slot over the one that is there. -/
theorem overlay_slot (record : Record) (tag : Nat) (slot : Slot)
    : record.overlay ⟨schema, type, [(tag, slot)], []⟩
      = record.putSlot tag (slot.over (record.slot? tag)) := by
  rw [Record.overlay, slotsOver, slotsOver]
  rfl

theorem store_of_repeated {field : Field} (hrep : field.isRepeated = true) (record : Record)
    (value : Value)
    : record.store field value
      = record.putSlot field.tag ((Slot.repeated [value]).over (record.slot? field.tag)) := by
  rw [Record.store, if_pos hrep, Record.elements, Slot.over_repeated]
  cases record.slot? field.tag with
  | none => rfl
  | some slot => cases slot <;> rfl

/-- To store a scalar is to merge the record that holds nothing else. -/
theorem store_scalar_eq_absorb (schema : Schema) {field : Field}
    (hf : type.field? field.tag = some field)
    (record : Record) (value : Scalar)
    : record.store field (.scalar value)
      = absorb schema type record ⟨field.tag, [.scalar value], []⟩ := by
  rw [absorb, gather_value hf, overlay_slot]
  by_cases hrep : field.isRepeated
  · rw [if_pos hrep, store_of_repeated hrep]
  · rw [if_neg hrep, Record.store, if_neg hrep, Slot.over, Value.over]

/-- To store a record that was read into the one that a field holds is to merge the record that was
read. Where the field holds none, what was read was read into an empty record.
-/
theorem store_message_eq_absorb {field : Field} (hf : type.field? field.tag = some field)
    (record : Record) {nested : Record} (hn : nested.Conforms schema)
    : record.store field
        (.message ((record.nestedStart field (.empty schema nested.type)).overlay nested))
      = absorb schema type record ⟨field.tag, [.message nested], []⟩ := by
  have hempty := Record.empty_overlay hn
  rw [absorb, gather_value hf, overlay_slot]
  by_cases hrep : field.isRepeated
  -- An element of a list is read into an empty record whatever the list holds.
  · have hstart : record.nestedStart field (.empty schema nested.type)
        = .empty schema nested.type := by
      rw [Record.nestedStart]
      split
      · rw [if_pos hrep]
      · rfl
    rw [hstart, hempty, if_pos hrep, store_of_repeated hrep]
  · have hover : Value.message
          ((record.nestedStart field (.empty schema nested.type)).overlay nested)
        = (Value.message nested).over (record.slot? field.tag) := by
      rw [Record.nestedStart, Value.over_message]
      rcases record.slot? field.tag with _ | ⟨_ | held⟩ | _
      · simp only [hempty]
      · simp only [hempty]
      · simp only [hrep, Bool.false_eq_true, if_false]
      · simp only [hempty]
    rw [if_neg hrep, Record.store, if_neg hrep, Slot.over, hover]

/-- A conforming record still conforms after a reading that fits, and its type is the same. -/
theorem absorb_conforms {record : Record} (hc : record.Conforms schema)
    (same : record.type = type) {reading : Reading} (hr : reading.Fits schema type)
    : (absorb schema type record reading).Conforms schema
      ∧ (absorb schema type record reading).type = type := by
  have typed : schema.message? type.name = some type := same ▸ hc.here.typed
  have cone := gather_conforms typed (fun other hm => List.mem_singleton.mp hm ▸ hr)
  exact ⟨hc.overlay cone same, (Record.overlay_type _ _).trans same⟩

/-- Merging readings into a record one at a time merges the record that all of them make up. -/
theorem foldlM_absorb {τ : Type} {read? : τ → Option Reading} {tokens : List τ}
    (typed : schema.message? type.name = some type)
    (fits
      : ∀ token ∈ tokens, ∀ reading, read? token = some reading → reading.Fits schema type)
    {start : Record} (hs : start.Conforms schema) (same : start.type = type)
    : tokens.foldlM
        (fun record token => (read? token).map (absorb schema type record)) start
      = (tokens.mapM read?).map (fun readings => start.overlay (gather schema type readings)) := by
  induction tokens generalizing start with
  | nil => exact congrArg some (Record.overlay_empty start type).symm
  | cons token rest ih =>
      cases hread : read? token with
      | none => simp [hread]
      | some reading =>
          have hone : ∀ other ∈ [reading], other.Fits schema type := by
            rintro other hm
            rw [List.mem_singleton.mp hm]
            exact fits token (by simp) reading hread
          have cone := gather_conforms typed hone
          obtain ⟨habsorb, hsame⟩ := absorb_conforms hs same (hone reading (by simp))
          have hnext := ih (fun other ho => fits other (by simp [ho])) habsorb hsame
          rw [List.foldlM_cons, hread, List.mapM_cons, hread]
          simp only [Option.map_some, Option.bind_eq_bind, Option.bind_some, hnext, Option.pure_def]
          cases hmore : rest.mapM read? with
          | none => rfl
          | some readings =>
              have hrest : ∀ other ∈ readings, other.Fits schema type := by
                intro other ho
                obtain ⟨item, hi, hr⟩ := Traversal.exists_of_mem_mapM hmore ho
                exact fits item (by simp [hi]) other hr
              have hjoin : gather schema type (reading :: readings)
                  = (gather schema type [reading]).overlay (gather schema type readings) :=
                gather_append hone hrest
              simp only [Option.map_some, Option.bind_some, hjoin]
              rw [absorb, Record.overlay_assoc hs cone (gather_conforms typed hrest) same same]

end Reference

end TagWire
