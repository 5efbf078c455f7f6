import TagWire.Record.Access

/-!
Merging one record into another, and dropping what is not understood. In a merge a set field of
the second record wins, except that nested records of singular fields are merged in their turn,
and elements and unknown units are added after those that are there.
-/

namespace TagWire

mutual

/-- What a field holds after a value is merged over what it may hold. -/
def Value.over (held : Option Slot) : Value → Value
  | .scalar value => .scalar value
  | .message theirs =>
      match held with
      | some (.single (.message mine)) => .message (mine.overlay theirs)
      | _ => .message theirs

/-- What a field holds after a slot is merged over what it may hold. -/
def Slot.over (held : Option Slot) : Slot → Slot
  | .single value => .single (value.over held)
  | .repeated values =>
      match held with
      | some (.repeated mine) => .repeated (mine ++ values)
      | _ => .repeated values

/-- The slots after others are merged over them. -/
def slotsOver (mine : List (Nat × Slot)) : List (Nat × Slot) → List (Nat × Slot)
  | [] => mine
  | (tag, slot) :: rest =>
      slotsOver (TagMap.insert tag (slot.over (TagMap.find? mine tag)) mine) rest

/-- A record after another is merged over it. It keeps its own schema and type. -/
def Record.overlay (mine : Record) : Record → Record
  | ⟨_, _, slots, unknown⟩ =>
      { mine with
        slots := slotsOver mine.slots slots
        unknown := mine.unknown.extend unknown }

end

namespace Record

/-- Merge another record of the same type into a record. -/
def merge (record other : Record) : Except RecordError Record :=
  if other.type.name != record.type.name then
    .error (.messageMismatch record.type.name other.type.name)
  else .ok (record.overlay other)

end Record

mutual

/-- A value without unknown units in the records it holds. -/
def Value.dropUnknown : Value → Value
  | .scalar value => .scalar value
  | .message record => .message record.dropUnknown

/-- A slot without unknown units in the records it holds. -/
def Slot.dropUnknown : Slot → Slot
  | .single value => .single value.dropUnknown
  | .repeated values => .repeated (dropUnknownValues values)

/-- Values without unknown units in the records they hold. -/
def dropUnknownValues : List Value → List Value
  | [] => []
  | value :: rest => value.dropUnknown :: dropUnknownValues rest

/-- Slots without unknown units in the records they hold. -/
def dropUnknownSlots : List (Nat × Slot) → List (Nat × Slot)
  | [] => []
  | (tag, slot) :: rest => (tag, slot.dropUnknown) :: dropUnknownSlots rest

/-- A record without unknown units, here and in every record nested in it. -/
def Record.dropUnknown : Record → Record
  | ⟨schema, type, slots, _⟩ => ⟨schema, type, dropUnknownSlots slots, []⟩

end

end TagWire
