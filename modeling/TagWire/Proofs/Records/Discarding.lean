import Mathlib.Logic.Relation
import TagWire.Proofs.Encoding.Pieces
import TagWire.Proofs.Records.Completeness
import TagWire.Proofs.Records.Reachability

/-!
Records without what is not understood. Dropping the unknown units goes to the bottom of a record
and leaves all else as it is: the slots, the order of elements, the scalars, what is missing. It
makes no difference whether it is done before a merge or after it.
-/

namespace TagWire

-----------------------------------------------------------------------------------------
-- Records that know the same
-----------------------------------------------------------------------------------------

mutual

/-- Values that differ in nothing but the unknown units of their records. -/
inductive Value.SameKnown : Value → Value → Prop
  | scalar (value : Scalar) : Value.SameKnown (.scalar value) (.scalar value)
  | message {record other : Record} (h : record.SameKnown other)
    : Value.SameKnown (.message record) (.message other)

/-- Lists of such values, in the same order. -/
inductive SameKnownValues : List Value → List Value → Prop
  | nil : SameKnownValues [] []
  | cons {value other : Value} {rest others : List Value} (head : value.SameKnown other)
    (tail : SameKnownValues rest others)
    : SameKnownValues (value :: rest) (other :: others)

/-- Slots of one shape that hold such values. -/
inductive Slot.SameKnown : Slot → Slot → Prop
  | single {value other : Value} (h : value.SameKnown other)
    : Slot.SameKnown (.single value) (.single other)
  | repeated {values others : List Value} (h : SameKnownValues values others)
    : Slot.SameKnown (.repeated values) (.repeated others)

/-- Such slots at the same tags. -/
inductive SameKnownSlots : List (Nat × Slot) → List (Nat × Slot) → Prop
  | nil : SameKnownSlots [] []
  | cons {tag : Nat} {slot other : Slot} {rest others : List (Nat × Slot)}
    (head : slot.SameKnown other) (tail : SameKnownSlots rest others)
    : SameKnownSlots ((tag, slot) :: rest) ((tag, other) :: others)

/-- Records of one schema and type that differ in nothing but unknown units, here and in the records
that they hold.
-/
inductive Record.SameKnown : Record → Record → Prop
  | intro {schema : Schema} {type : MessageType} {slots others : List (Nat × Slot)}
    {unknown unknown' : UnknownSet} (h : SameKnownSlots slots others)
    : Record.SameKnown ⟨schema, type, slots, unknown⟩ ⟨schema, type, others, unknown'⟩

end

mutual

theorem Value.sameKnown_dropUnknown (value : Value) : value.SameKnown value.dropUnknown := by
  cases value with
  | scalar value => rw [Value.dropUnknown]; exact .scalar value
  | message record => rw [Value.dropUnknown]; exact .message record.sameKnown_dropUnknown

theorem sameKnownValues_dropUnknown (values : List Value)
    : SameKnownValues values (dropUnknownValues values) := by
  cases values with
  | nil => exact .nil
  | cons value rest =>
      exact .cons value.sameKnown_dropUnknown (sameKnownValues_dropUnknown rest)

theorem Slot.sameKnown_dropUnknown (slot : Slot) : slot.SameKnown slot.dropUnknown := by
  cases slot with
  | single value => rw [Slot.dropUnknown]; exact .single value.sameKnown_dropUnknown
  | repeated values =>
      rw [Slot.dropUnknown]; exact .repeated (sameKnownValues_dropUnknown values)

theorem sameKnownSlots_dropUnknown (slots : List (Nat × Slot))
    : SameKnownSlots slots (dropUnknownSlots slots) := by
  cases slots with
  | nil => exact .nil
  | cons entry rest =>
      exact .cons entry.2.sameKnown_dropUnknown (sameKnownSlots_dropUnknown rest)

/-- A record knows the same without its unknown units, by mutual induction over what it holds. -/
theorem Record.sameKnown_dropUnknown (record : Record) : record.SameKnown record.dropUnknown := by
  cases record with
  | mk schema type slots unknown =>
      rw [Record.dropUnknown]
      exact .intro (sameKnownSlots_dropUnknown slots)

end

-----------------------------------------------------------------------------------------
-- What is left
-----------------------------------------------------------------------------------------

theorem dropUnknownValues_eq_map (values : List Value)
    : dropUnknownValues values = values.map Value.dropUnknown := by
  induction values with
  | nil => rfl
  | cons value rest ih => rw [dropUnknownValues, ih, List.map_cons]

namespace Record

@[simp] theorem dropUnknown_schema (record : Record)
    : record.dropUnknown.schema = record.schema := by
  cases record
  rw [dropUnknown]

@[simp] theorem dropUnknown_type (record : Record) : record.dropUnknown.type = record.type := by
  cases record
  rw [dropUnknown]

@[simp] theorem dropUnknown_unknown (record : Record) : record.dropUnknown.unknown = [] := by
  cases record
  rw [dropUnknown]

theorem dropUnknown_slots (record : Record)
    : record.dropUnknown.slots = TagMap.mapValues Slot.dropUnknown record.slots := by
  cases record
  rw [dropUnknown, dropUnknownSlots_eq_map]

/-- What a record holds without unknown units, it held with them. -/
theorem of_holds_dropUnknown {record nested : Record} (h : record.dropUnknown.Holds nested)
    : ∃ held, record.Holds held ∧ nested = held.dropUnknown := by
  obtain ⟨entry, he, hm⟩ := h
  rw [dropUnknown_slots] at he
  obtain ⟨before, hb, rfl⟩ := List.mem_map.mp he
  rw [values_dropUnknown] at hm
  obtain ⟨value, hv, same⟩ := List.mem_map.mp hm
  cases value with
  | scalar value => simp [Value.dropUnknown] at same
  | message held =>
      rw [Value.dropUnknown] at same
      exact ⟨held, ⟨before, hb, hv⟩, (Value.message.inj same).symm⟩

/-- No unknown units are left at any depth, by induction on the way down. -/
theorem unknown_of_below_dropUnknown {record nested : Record}
    (h : Relation.ReflTransGen Record.Holds record.dropUnknown nested)
    : nested.unknown = [] := by
  have dropped : ∃ held : Record, nested = held.dropUnknown := by
    induction h with
    | refl => exact ⟨record, rfl⟩
    | tail _ holds ih =>
        obtain ⟨held, rfl⟩ := ih
        obtain ⟨inner, _, same⟩ := of_holds_dropUnknown holds
        exact ⟨inner, same⟩
  obtain ⟨held, rfl⟩ := dropped
  exact held.dropUnknown_unknown

end Record

mutual

theorem Value.dropUnknown_dropUnknown (value : Value)
    : value.dropUnknown.dropUnknown = value.dropUnknown := by
  cases value with
  | scalar value => simp only [Value.dropUnknown]
  | message record => simp only [Value.dropUnknown, record.dropUnknown_dropUnknown]

theorem dropUnknownValues_dropUnknownValues (values : List Value)
    : dropUnknownValues (dropUnknownValues values) = dropUnknownValues values := by
  cases values with
  | nil => rfl
  | cons value rest =>
      simp only [dropUnknownValues, value.dropUnknown_dropUnknown,
        dropUnknownValues_dropUnknownValues rest]

theorem Slot.dropUnknown_dropUnknown (slot : Slot)
    : slot.dropUnknown.dropUnknown = slot.dropUnknown := by
  cases slot with
  | single value => simp only [Slot.dropUnknown, value.dropUnknown_dropUnknown]
  | repeated values => simp only [Slot.dropUnknown, dropUnknownValues_dropUnknownValues values]

theorem dropUnknownSlots_dropUnknownSlots (slots : List (Nat × Slot))
    : dropUnknownSlots (dropUnknownSlots slots) = dropUnknownSlots slots := by
  cases slots with
  | nil => rfl
  | cons entry rest =>
      simp only [dropUnknownSlots, entry.2.dropUnknown_dropUnknown,
        dropUnknownSlots_dropUnknownSlots rest]

/-- There is nothing to drop a second time, by mutual induction. -/
theorem Record.dropUnknown_dropUnknown (record : Record)
    : record.dropUnknown.dropUnknown = record.dropUnknown := by
  cases record with
  | mk schema type slots unknown =>
      simp only [Record.dropUnknown, dropUnknownSlots_dropUnknownSlots slots]

end

-----------------------------------------------------------------------------------------
-- Merging
-----------------------------------------------------------------------------------------

mutual

theorem Value.dropUnknown_over (held : Option Slot) (value : Value)
    : (value.over held).dropUnknown = value.dropUnknown.over (held.map Slot.dropUnknown) := by
  cases value with
  | scalar value => simp only [Value.over, Value.dropUnknown]
  | message theirs =>
      rcases held with _ | ⟨_ | mine⟩ | _
      · simp [Value.over, Value.dropUnknown]
      · simp [Value.over, Value.dropUnknown, Slot.dropUnknown]
      · simp only [Value.over, Value.dropUnknown, Option.map_some, Slot.dropUnknown,
          mine.dropUnknown_overlay theirs]
      · simp [Value.over, Value.dropUnknown, Slot.dropUnknown]

theorem Slot.dropUnknown_over (held : Option Slot) (slot : Slot)
    : (slot.over held).dropUnknown = slot.dropUnknown.over (held.map Slot.dropUnknown) := by
  cases slot with
  | single value => simp only [Slot.over, Slot.dropUnknown, value.dropUnknown_over]
  | repeated values =>
      rcases held with _ | _ | mine
      · simp [Slot.over, Slot.dropUnknown]
      · simp [Slot.over, Slot.dropUnknown]
      · simp only [Slot.over, Slot.dropUnknown, Option.map_some, dropUnknownValues_eq_map,
          List.map_append]

theorem dropUnknownSlots_slotsOver (mine theirs : List (Nat × Slot))
    : dropUnknownSlots (slotsOver mine theirs)
      = slotsOver (dropUnknownSlots mine) (dropUnknownSlots theirs) := by
  cases theirs with
  | nil => simp only [slotsOver, dropUnknownSlots]
  | cons entry rest =>
      rcases entry with ⟨tag, slot⟩
      have hheld : (TagMap.find? mine tag).map Slot.dropUnknown
          = TagMap.find? (dropUnknownSlots mine) tag := by
        rw [Record.dropUnknownSlots_eq_map, TagMap.find?_mapValues]
      rw [slotsOver, dropUnknownSlots_slotsOver _ rest, dropUnknownSlots, slotsOver, ← hheld,
        ← slot.dropUnknown_over, Record.dropUnknownSlots_eq_map, TagMap.mapValues_insert,
        ← Record.dropUnknownSlots_eq_map]

/-- Dropping unknown units commutes with merging, by mutual induction over what is merged. -/
theorem Record.dropUnknown_overlay (mine theirs : Record)
    : (mine.overlay theirs).dropUnknown = mine.dropUnknown.overlay theirs.dropUnknown := by
  cases theirs with
  | mk _ _ slots unknown =>
      cases mine
      simp only [Record.overlay, Record.dropUnknown, dropUnknownSlots_slotsOver _ slots]
      rfl

end

theorem Record.merge_dropUnknown (record other : Record)
    : record.dropUnknown.merge other.dropUnknown
      = (record.merge other).map Record.dropUnknown := by
  simp only [merge, dropUnknown_type, ← dropUnknown_overlay]
  split <;> rfl

-----------------------------------------------------------------------------------------
-- What is missing
-----------------------------------------------------------------------------------------

mutual

theorem Value.missing_dropUnknown (value : Value) : value.dropUnknown.missing = value.missing := by
  cases value with
  | scalar value => simp only [Value.dropUnknown]
  | message record => simp only [Value.dropUnknown, Value.missing, record.missing_dropUnknown]

theorem missingFrom_dropUnknownValues (index : Nat) (values : List Value)
    : missingFrom index (dropUnknownValues values) = missingFrom index values := by
  cases values with
  | nil => rfl
  | cons value rest =>
      simp only [dropUnknownValues, missingFrom, value.missing_dropUnknown,
        missingFrom_dropUnknownValues (index + 1) rest]

theorem Slot.missing_dropUnknown (slot : Slot) : slot.dropUnknown.missing = slot.missing := by
  cases slot with
  | single value => simp only [Slot.dropUnknown, Slot.missing, value.missing_dropUnknown]
  | repeated values =>
      simp only [Slot.dropUnknown, Slot.missing, missingFrom_dropUnknownValues 0 values]

theorem missingSlots_dropUnknownSlots (slots : List (Nat × Slot))
    : missingSlots (dropUnknownSlots slots) = missingSlots slots := by
  cases slots with
  | nil => rfl
  | cons entry rest =>
      simp only [dropUnknownSlots, missingSlots, entry.2.missing_dropUnknown,
        missingSlots_dropUnknownSlots rest]

/-- What is missing in a record does not depend on unknown units, by mutual induction. -/
theorem Record.missing_dropUnknown (record : Record)
    : record.dropUnknown.missing = record.missing := by
  cases record with
  | mk schema type slots unknown =>
      simp only [Record.dropUnknown, Record.missing, missingSlots_dropUnknownSlots slots]
      refine congrArg (type.fields.flatMap ·) (funext fun field => ?_)
      rw [Record.dropUnknownSlots_eq_map, TagMap.find?_mapValues]
      cases TagMap.find? slots field.tag with
      | none => rfl
      | some slot => cases slot <;> simp only [Option.map_some, Slot.dropUnknown]

end

theorem Record.missingPaths_dropUnknown (record : Record)
    : record.dropUnknown.missingPaths = record.missingPaths := by
  rw [missingPaths, missing_dropUnknown, missingPaths]

-----------------------------------------------------------------------------------------
-- Encoding
-----------------------------------------------------------------------------------------

/-- A record cannot be told from its scalars in a run of packed values, so nothing changes there. -/
theorem packedPayload_dropUnknown (values : List Value)
    : packedPayload (dropUnknownValues values) = packedPayload values := by
  rw [dropUnknownValues_eq_map, packedPayload, List.flatMap_map]
  refine List.flatMap_congr (fun value _ => ?_)
  cases value with
  | scalar value => rw [Value.dropUnknown]
  | message record =>
      rw [Value.dropUnknown]
      rfl

mutual

theorem Value.withoutKept_piece (key : Bytes) (value : Value)
    : (value.piece key).withoutKept = [value.dropUnknown.piece key] := by
  cases value with
  | scalar value => simp only [Value.piece, Value.dropUnknown, Piece.withoutKept]
  | message record =>
      simp only [Value.piece, Value.dropUnknown, Piece.withoutKept,
        record.withoutKept_pieces]

theorem withoutKept_valuePieces (key : Bytes) (values : List Value)
    : piecesWithoutKept (valuePieces key values) = valuePieces key (dropUnknownValues values) := by
  cases values with
  | nil => rfl
  | cons value rest =>
      simp only [valuePieces, dropUnknownValues, piecesWithoutKept, value.withoutKept_piece,
        withoutKept_valuePieces key rest, List.singleton_append]

theorem Slot.withoutKept_pieces (field : Field) (slot : Slot)
    : piecesWithoutKept (slot.pieces field) = slot.dropUnknown.pieces field := by
  cases slot with
  | single value =>
      simp only [Slot.pieces, Slot.dropUnknown, piecesWithoutKept, value.withoutKept_piece,
        List.append_nil]
  | repeated values =>
      have empty : (dropUnknownValues values).isEmpty = values.isEmpty := by
        cases values <;> rfl
      simp only [Slot.pieces, Slot.dropUnknown, empty, packedPayload_dropUnknown]
      split
      · rfl
      · split
        · rfl
        · exact withoutKept_valuePieces _ values

theorem withoutKept_slotPieces (type : MessageType) (slots : List (Nat × Slot))
    (unknown : UnknownSet)
    : piecesWithoutKept (slotPieces type slots unknown)
      = slotPieces type (dropUnknownSlots slots) [] := by
  cases slots with
  | nil => simp only [slotPieces, dropUnknownSlots, piecesWithoutKept_kept]; rfl
  | cons entry rest =>
      simp only [slotPieces, dropUnknownSlots, piecesWithoutKept_append, piecesWithoutKept_kept,
        withoutKept_slotPieces type rest, List.takeWhile_nil, List.dropWhile_nil]
      cases type.field? entry.1 with
      | none => rfl
      | some field => simp only [entry.2.withoutKept_pieces field]; rfl

/-- Without its unknown units a record has the same pieces but those units, by mutual induction. -/
theorem Record.withoutKept_pieces (record : Record)
    : piecesWithoutKept record.pieces = record.dropUnknown.pieces := by
  cases record with
  | mk schema type slots unknown =>
      simp only [Record.pieces, Record.dropUnknown, withoutKept_slotPieces type slots]

end

namespace Record

theorem bytes_dropUnknown (record : Record)
    : record.dropUnknown.bytes = piecesBytes (piecesWithoutKept record.pieces) := by
  rw [bytes_eq_encoding, withoutKept_pieces, piecesBytes_pieces]

/-- A record can be encoded without its unknown units exactly if it can with them. -/
theorem encode_dropUnknown (record : Record)
    : record.dropUnknown.encode
      = record.encode.map (fun _ => piecesBytes (piecesWithoutKept record.pieces)) := by
  cases complete : record.isComplete with
  | true =>
      have still : record.dropUnknown.isComplete = true := by
        rwa [isComplete, missingPaths_dropUnknown]
      rw [encode_complete complete, encode_complete still, bytes_dropUnknown]
      rfl
  | false =>
      have still : record.dropUnknown.isComplete = false := by
        rwa [isComplete, missingPaths_dropUnknown]
      rw [encode_incomplete complete, encode_incomplete still, missingPaths_dropUnknown,
        dropUnknown_type]
      rfl

/-- Dropping the unknown units of a record leaves none in it, nor in any record below it, and
changes nothing else: the rest is the same, nothing is left to do a second time, merging can be done
before or after, the same fields are missing, and what is written are the pieces of the record
without those units, with the lengths of the nested records as they are then.
-/
theorem dropUnknown_exact (record : Record)
    : (∀ nested, Relation.ReflTransGen Holds record.dropUnknown nested → nested.unknown = [])
      ∧ record.SameKnown record.dropUnknown
      ∧ record.dropUnknown.dropUnknown = record.dropUnknown
      ∧ (∀ other : Record,
          (record.merge other).map dropUnknown = record.dropUnknown.merge other.dropUnknown)
      ∧ record.dropUnknown.missingPaths = record.missingPaths
      ∧ record.bytes = piecesBytes record.pieces
      ∧ record.dropUnknown.bytes = piecesBytes (piecesWithoutKept record.pieces)
      ∧ record.dropUnknown.encode
        = record.encode.map (fun _ => piecesBytes (piecesWithoutKept record.pieces)) :=
  ⟨fun _ below => unknown_of_below_dropUnknown below,
    record.sameKnown_dropUnknown,
    record.dropUnknown_dropUnknown,
    fun other => (record.merge_dropUnknown other).symm,
    record.missingPaths_dropUnknown,
    by rw [bytes_eq_encoding, piecesBytes_pieces],
    record.bytes_dropUnknown,
    record.encode_dropUnknown⟩

end Record

/-- The kept unit of a nested record goes, and the length before the record goes down with it. -/
example
    : AddressBook.owner.bytes = [0x22, 0x02, 0x10, 0x09]
      ∧ AddressBook.owner.dropUnknown.bytes = [0x22, 0x00] := by
  decide +kernel

end TagWire
