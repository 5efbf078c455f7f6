import TagWire.Proofs.Maps.Pointwise
import TagWire.Record.Basic

/-!
Records nested in records. A record is a finite tree, so what holds of a record as soon as it holds
of the records nested in it holds of every record.
-/

namespace TagWire

@[simp] theorem Slot.values_single (value : Value) : (Slot.single value).values = [value] := rfl

@[simp] theorem Slot.values_repeated (values : List Value)
    : (Slot.repeated values).values = values :=
  rfl

/-- A record stands directly in another, as the value or an element of one of its slots. -/
def Record.Holds (record nested : Record) : Prop :=
  ∃ entry ∈ record.slots, .message nested ∈ entry.2.values

namespace Record

theorem holds_of_slot? {record nested : Record} {tag : Nat} {slot : Slot}
    (h : record.slot? tag = some slot) (hm : .message nested ∈ slot.values)
    : record.Holds nested :=
  ⟨(tag, slot), TagMap.mem_of_find? h, hm⟩

/-- The values that stand at a tag; none if nothing does. -/
def valuesAt (record : Record) (tag : Nat) : List Value :=
  ((record.slot? tag).map Slot.values).getD []

theorem valuesAt_of_slot? {record : Record} {tag : Nat} {slot : Slot}
    (h : record.slot? tag = some slot)
    : record.valuesAt tag = slot.values := by
  rw [valuesAt, h, Option.map_some, Option.getD_some]

theorem valuesAt_of_slot?_eq_none {record : Record} {tag : Nat} (h : record.slot? tag = none)
    : record.valuesAt tag = [] := by
  rw [valuesAt, h, Option.map_none, Option.getD_none]

theorem holds_of_mem_valuesAt {record nested : Record} {tag : Nat}
    (h : .message nested ∈ record.valuesAt tag)
    : record.Holds nested := by
  cases hs : record.slot? tag with
  | none => simp [valuesAt_of_slot?_eq_none hs] at h
  | some slot => exact holds_of_slot? hs (valuesAt_of_slot? hs ▸ h)

theorem sizeOf_lt_of_holds {record nested : Record} (h : record.Holds nested)
    : sizeOf nested < sizeOf record := by
  rcases h with ⟨⟨tag, slot⟩, hentry, hm⟩
  rcases record with ⟨schema, type, slots, unknown⟩
  have inSlot : sizeOf nested < sizeOf slot := by
    cases slot with
    | single value =>
        obtain rfl := List.mem_singleton.mp hm
        simp only [Slot.single.sizeOf_spec, Value.message.sizeOf_spec]
        omega
    | repeated values =>
        have hv := List.sizeOf_lt_of_mem hm
        simp only [Value.message.sizeOf_spec, Slot.values_repeated] at hv
        simp only [Slot.repeated.sizeOf_spec]
        omega
  have inSlots := List.sizeOf_lt_of_mem hentry
  simp only [Prod.mk.sizeOf_spec] at inSlots
  simp only [Record.mk.sizeOf_spec]
  omega

/-- Induction over the tree of a record: a record after all that it holds. -/
@[elab_as_elim]
theorem nestedInduction {motive : Record → Prop}
    (step : ∀ record, (∀ nested, record.Holds nested → motive nested) → motive record)
    (record : Record)
    : motive record :=
  step record (fun nested h =>
    have := sizeOf_lt_of_holds h
    nestedInduction step nested)
termination_by sizeOf record

end Record

mutual

/-- The levels of records in a value; none in a scalar. -/
def Value.levels : Value → Nat
  | .scalar _ => 0
  | .message record => record.depth + 1

/-- The most levels of records in one of some values. -/
def valuesLevels : List Value → Nat
  | [] => 0
  | value :: rest => max value.levels (valuesLevels rest)

/-- The most levels of records in a value of a slot. -/
def Slot.levels : Slot → Nat
  | .single value => value.levels
  | .repeated values => valuesLevels values

/-- The most levels of records in one of some slots. -/
def slotsLevels : List (Nat × Slot) → Nat
  | [] => 0
  | (_, slot) :: rest => max slot.levels (slotsLevels rest)

/-- The levels of records nested in a record: none if all its values are scalars. -/
def Record.depth : Record → Nat
  | ⟨_, _, slots, _⟩ => slotsLevels slots

end

theorem valuesLevels_of_mem {values : List Value} {value : Value} (h : value ∈ values)
    : value.levels ≤ valuesLevels values := by
  induction values with
  | nil => simp at h
  | cons head rest ih =>
      simp only [valuesLevels]
      rcases List.mem_cons.mp h with rfl | hm
      · exact Nat.le_max_left _ _
      · exact Nat.le_trans (ih hm) (Nat.le_max_right _ _)

theorem Slot.levels_of_mem {slot : Slot} {value : Value} (h : value ∈ slot.values)
    : value.levels ≤ slot.levels := by
  cases slot with
  | single held =>
      obtain rfl := List.mem_singleton.mp h
      simp [levels]
  | repeated values => exact valuesLevels_of_mem h

theorem slotsLevels_of_mem {slots : List (Nat × Slot)} {entry : Nat × Slot} (h : entry ∈ slots)
    : entry.2.levels ≤ slotsLevels slots := by
  induction slots with
  | nil => simp at h
  | cons head rest ih =>
      rcases head with ⟨tag, slot⟩
      simp only [slotsLevels]
      rcases List.mem_cons.mp h with rfl | hm
      · exact Nat.le_max_left _ _
      · exact Nat.le_trans (ih hm) (Nat.le_max_right _ _)

/-- A nested record is less deep than the record that holds it. -/
theorem Record.depth_lt_of_holds {record nested : Record} (h : record.Holds nested)
    : nested.depth < record.depth := by
  rcases h with ⟨entry, hentry, hm⟩
  rcases record with ⟨schema, type, slots, unknown⟩
  calc nested.depth
    _ < (Value.message nested).levels := Nat.lt_succ_self _
    _ ≤ entry.2.levels := Slot.levels_of_mem hm
    _ ≤ slotsLevels slots := slotsLevels_of_mem hentry

theorem valuesLevels_le {values : List Value} {bound : Nat}
    (h : ∀ value ∈ values, value.levels ≤ bound)
    : valuesLevels values ≤ bound := by
  induction values with
  | nil => exact Nat.zero_le bound
  | cons head rest ih =>
      exact Nat.max_le.mpr ⟨h head (by simp), ih (fun value hv => h value (by simp [hv]))⟩

theorem Slot.levels_le {slot : Slot} {bound : Nat}
    (h : ∀ value ∈ slot.values, value.levels ≤ bound)
    : slot.levels ≤ bound := by
  cases slot with
  | single value => exact h value (List.mem_singleton_self value)
  | repeated values => exact valuesLevels_le h

theorem slotsLevels_le {slots : List (Nat × Slot)} {bound : Nat}
    (h : ∀ entry ∈ slots, entry.2.levels ≤ bound)
    : slotsLevels slots ≤ bound := by
  induction slots with
  | nil => exact Nat.zero_le bound
  | cons head rest ih =>
      exact Nat.max_le.mpr ⟨h head (by simp), ih (fun entry he => h entry (by simp [he]))⟩

/-- A record is as deep as the deepest record that it holds makes it. -/
theorem Record.depth_le_iff {record : Record} {bound : Nat}
    : record.depth ≤ bound ↔ ∀ nested, record.Holds nested → nested.depth < bound := by
  constructor
  · intro h nested hn
    exact Nat.lt_of_lt_of_le (depth_lt_of_holds hn) h
  · intro h
    rcases record with ⟨schema, type, slots, unknown⟩
    refine slotsLevels_le (fun entry he => Slot.levels_le (fun value hv => ?_))
    cases value with
    | scalar value => exact Nat.zero_le bound
    | message nested => exact h nested ⟨entry, he, hv⟩

end TagWire
