import TagWire.Proofs.Encoding.TagOrder

/-!
What a record is written as, in pieces. The pieces of a nested record lie within the piece of its
unit. The length that is written before them is not part of any piece; it comes from what they are.
-/

namespace TagWire

/-- A piece of what a record is written as. -/
inductive Piece where
  /-- A unit that was not understood, as it came. -/
  | kept (unit : RawUnit)
  /-- A unit with no record in it. -/
  | plain (bytes : Bytes)
  /-- A unit with a record in it: its key, and the pieces of the record. -/
  | nested (key : Bytes) (body : List Piece)

mutual

/-- The bytes of a piece. Those of a record stand behind their number. -/
def Piece.bytes : Piece → Bytes
  | .kept unit => unit.bytes
  | .plain bytes => bytes
  | .nested key body => key ++ Scalar.delimited (piecesBytes body)

/-- The bytes of pieces, one after the other. -/
def piecesBytes : List Piece → Bytes
  | [] => []
  | piece :: rest => piece.bytes ++ piecesBytes rest

end

mutual

/-- What is left of a piece without kept units, here and in the records that lie within. -/
def Piece.withoutKept : Piece → List Piece
  | .kept _ => []
  | .plain bytes => [.plain bytes]
  | .nested key body => [.nested key (piecesWithoutKept body)]

/-- What is left of pieces without kept units. -/
def piecesWithoutKept : List Piece → List Piece
  | [] => []
  | piece :: rest => piece.withoutKept ++ piecesWithoutKept rest

end

mutual

/-- The piece of a value behind a key. -/
def Value.piece (key : Bytes) : Value → Piece
  | .scalar value => .plain (key ++ value.payload)
  | .message record => .nested key record.pieces

/-- The pieces of values, each behind a key of its own. -/
def valuePieces (key : Bytes) : List Value → List Piece
  | [] => []
  | value :: rest => value.piece key :: valuePieces key rest

/-- The pieces of a slot: one for each value, or one for the run of all elements. -/
def Slot.pieces (field : Field) : Slot → List Piece
  | .single value => [value.piece (field.keyBytes field.wireKind)]
  | .repeated values =>
      if values.isEmpty then []
      else if field.packed then
        [.plain (field.keyBytes .lengthDelimited ++ Scalar.delimited (packedPayload values))]
      else valuePieces (field.keyBytes field.wireKind) values

/-- The pieces of slots and kept units, in one ascending order of tags. -/
def slotPieces (type : MessageType) : List (Nat × Slot) → UnknownSet → List Piece
  | [], unknown => unknown.units.map .kept
  | (tag, slot) :: rest, unknown =>
      (UnknownSet.units (unknown.takeWhile (fun entry => entry.1 < tag))).map .kept
        ++ (match type.field? tag with
            | some field => slot.pieces field
            | none => [])
        ++ slotPieces type rest (unknown.dropWhile (fun entry => entry.1 < tag))

/-- The pieces of a record. -/
def Record.pieces : Record → List Piece
  | ⟨_, type, slots, unknown⟩ => slotPieces type slots unknown

end

-----------------------------------------------------------------------------------------
-- Pieces in a row
-----------------------------------------------------------------------------------------

theorem piecesBytes_eq_flatMap (pieces : List Piece)
    : piecesBytes pieces = pieces.flatMap Piece.bytes := by
  induction pieces with
  | nil => rfl
  | cons piece rest ih => rw [piecesBytes, ih, List.flatMap_cons]

theorem piecesWithoutKept_eq_flatMap (pieces : List Piece)
    : piecesWithoutKept pieces = pieces.flatMap Piece.withoutKept := by
  induction pieces with
  | nil => rfl
  | cons piece rest ih => rw [piecesWithoutKept, ih, List.flatMap_cons]

theorem piecesBytes_append (first second : List Piece)
    : piecesBytes (first ++ second) = piecesBytes first ++ piecesBytes second := by
  simp only [piecesBytes_eq_flatMap, List.flatMap_append]

theorem piecesWithoutKept_append (first second : List Piece)
    : piecesWithoutKept (first ++ second)
      = piecesWithoutKept first ++ piecesWithoutKept second := by
  simp only [piecesWithoutKept_eq_flatMap, List.flatMap_append]

theorem piecesBytes_kept (units : List RawUnit)
    : piecesBytes (units.map .kept) = (units.map RawUnit.whole).flatMap WireUnit.bytes := by
  simp only [piecesBytes_eq_flatMap, List.flatMap_map, RawUnit.bytes_whole, Piece.bytes]

theorem piecesWithoutKept_kept (units : List RawUnit)
    : piecesWithoutKept (units.map .kept) = [] := by
  simp [piecesWithoutKept_eq_flatMap, List.flatMap_map, Piece.withoutKept]

-----------------------------------------------------------------------------------------
-- The pieces of a record are what it is written as
-----------------------------------------------------------------------------------------

mutual

theorem Value.bytes_piece (key : Bytes) (value : Value)
    : (value.piece key).bytes = key ++ value.toPayload.bytes := by
  cases value with
  | scalar value => simp only [Value.piece, Piece.bytes, Value.toPayload, Scalar.bytes_toPayload]
  | message record =>
      simp only [Value.piece, Piece.bytes, record.piecesBytes_pieces]
      rfl

theorem piecesBytes_valuePieces (field : Field) (values : List Value)
    : piecesBytes (valuePieces (field.keyBytes field.wireKind) values)
      = ((toPayloads values).map (field.unit field.wireKind)).flatMap WireUnit.bytes := by
  cases values with
  | nil => rfl
  | cons value rest =>
      simp only [valuePieces, piecesBytes, toPayloads, List.map_cons, List.flatMap_cons,
        value.bytes_piece, piecesBytes_valuePieces field rest]
      rfl

theorem Slot.piecesBytes_pieces (field : Field) (slot : Slot)
    : piecesBytes (slot.pieces field) = (slot.toUnits field).flatMap WireUnit.bytes := by
  cases slot with
  | single value =>
      simp only [Slot.pieces, Slot.toUnits, piecesBytes, value.bytes_piece, List.append_nil,
        List.flatMap_singleton]
      rfl
  | repeated values =>
      simp only [Slot.pieces, Slot.toUnits]
      split
      · rfl
      · split
        · simp only [piecesBytes, Piece.bytes, List.append_nil, List.flatMap_singleton]
          rfl
        · exact piecesBytes_valuePieces field values

theorem piecesBytes_slotPieces (type : MessageType) (slots : List (Nat × Slot))
    (unknown : UnknownSet)
    : piecesBytes (slotPieces type slots unknown)
      = (slotsToUnits type slots unknown).flatMap WireUnit.bytes := by
  cases slots with
  | nil => simp only [slotPieces, slotsToUnits, piecesBytes_kept]
  | cons entry rest =>
      rcases entry with ⟨tag, slot⟩
      simp only [slotPieces, slotsToUnits, piecesBytes_append, List.flatMap_append,
        piecesBytes_kept, piecesBytes_slotPieces type rest]
      cases type.field? tag with
      | none => rfl
      | some field => simp only [slot.piecesBytes_pieces field]

/-- The pieces of a record have its bytes, by mutual induction over what it holds. -/
theorem Record.piecesBytes_pieces (record : Record)
    : piecesBytes record.pieces = record.encoding := by
  cases record with
  | mk schema type slots unknown =>
      simp only [Record.pieces, Record.encoding, piecesBytes_slotPieces type slots]

end

end TagWire
