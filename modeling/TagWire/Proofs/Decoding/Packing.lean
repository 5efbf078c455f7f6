import TagWire.Proofs.Decoding.Concatenation
import TagWire.Proofs.Decoding.Rereading

/-!
Elements of a repeated field, packed and apart. However a list of elements is cut into chunks, and
whichever of the two forms each chunk has, the elements say the same: their values in order, and
those that are undeclared numbers as units with the shortest key.
-/

namespace TagWire

/-- Consecutive elements as they are sent: packed into one unit, or each in a unit of its own. -/
inductive Chunk where
  | packed (key length : Bytes) (elements : List Payload)
  | apart (elements : List Payload)

namespace Chunk

/-- The elements of a chunk. -/
def elements : Chunk → List Payload
  | packed _ _ elements => elements
  | apart elements => elements

/-- The units that a chunk is sent as. A unit of one element has the shortest key. -/
def units (field : Field) : Chunk → List WireUnit
  | packed key length elements => [field.run key length elements]
  | apart elements => elements.map (field.unit field.wireKind)

/-- The elements of a chunk can each be cut off alone, and a packed unit stands alone. -/
inductive Formed (field : Field) : Chunk → Prop
  | packed {key length : Bytes} {elements : List Payload}
    (alone
      : ∀ element ∈ elements, field.wireKind.payload? element.bytes = some (element, []))
    (standing : (field.run key length elements).Standing)
    : Formed field (.packed key length elements)
  | apart {elements : List Payload}
    (alone
      : ∀ element ∈ elements, field.wireKind.payload? element.bytes = some (element, []))
    : Formed field (.apart elements)

/-- The bytes of chunks in a row. -/
def bytes (field : Field) (chunks : List Chunk) : Bytes :=
  (chunks.flatMap (units field)).flatMap WireUnit.bytes

/-- The same elements, cut into other chunks or sent in another form. -/
structure Recut (field : Field) (chunks others : List Chunk) : Prop where
  formed : ∀ chunk ∈ chunks, chunk.Formed field
  reformed : ∀ chunk ∈ others, chunk.Formed field
  same : others.flatMap elements = chunks.flatMap elements

theorem tag_of_mem_units {field : Field} {chunk : Chunk} {unit : WireUnit}
    (h : unit ∈ chunk.units field)
    : unit.tag = field.tag := by
  cases chunk with
  | packed key length elements =>
      rw [List.mem_singleton.mp h]
      rfl
  | apart elements =>
      obtain ⟨element, _, rfl⟩ := List.mem_map.mp h
      rfl

theorem Formed.standing {field : Field} (hpos : field.tag ≠ 0) (hmax : field.tag ≤ maxTag)
    {chunk : Chunk} (h : chunk.Formed field)
    : ∀ unit ∈ chunk.units field, unit.Standing := by
  intro unit hu
  cases h with
  | packed alone standing =>
      rw [List.mem_singleton.mp hu]
      exact standing
  | apart alone =>
      obtain ⟨element, he, rfl⟩ := List.mem_map.mp hu
      exact Field.standing_unit hpos hmax (alone element he)

theorem standing_of_formed {field : Field} (hpos : field.tag ≠ 0) (hmax : field.tag ≤ maxTag)
    {chunks : List Chunk} (h : ∀ chunk ∈ chunks, chunk.Formed field)
    : ∀ unit ∈ chunks.flatMap (units field), unit.Standing := by
  intro unit hu
  obtain ⟨chunk, hm, hu⟩ := List.mem_flatMap.mp hu
  exact (h chunk hm).standing hpos hmax unit hu

end Chunk

namespace Reference

variable {schema : Schema} {type : MessageType} {nested : String → Bytes → Option Record}
  {field : Field}

section Declared

variable (hf : type.field? field.tag = some field) (hp : field.kind.isPackable = true)

include hf hp

theorem says_chunk (hrep : field.isRepeated = true) {chunk : Chunk} (formed : chunk.Formed field)
    : Says nested schema type (chunk.units field)
        (chunk.elements.filterMap (field.valueOf? schema))
        (chunk.elements.filterMap (field.keptOf? schema)) := by
  cases formed with
  | packed alone standing => exact Says.single (readUnit?_run hf hp hrep alone _ _)
  | @apart elements alone =>
      obtain ⟨hvalues, hkept⟩ := flatMap_elementReading schema field elements
      have hread : (elements.map (field.unit field.wireKind)).mapM (readUnit? nested schema type)
          = some (elements.map (elementReading schema field)) :=
        Traversal.mapM_map_eq_some (fun element _ => readUnit?_apart hf hp element)
      exact ⟨_, hread, hvalues, hkept⟩

/-- Chunks in a row say what their elements say, by induction on the chunks. -/
theorem says_chunks (hrep : field.isRepeated = true) {chunks : List Chunk}
    (formed : ∀ chunk ∈ chunks, chunk.Formed field)
    : Says nested schema type (chunks.flatMap (Chunk.units field))
        ((chunks.flatMap Chunk.elements).filterMap (field.valueOf? schema))
        ((chunks.flatMap Chunk.elements).filterMap (field.keptOf? schema)) := by
  induction chunks with
  | nil => exact Says.nil
  | cons chunk rest ih =>
      have hfirst : Says nested schema type (chunk.units field)
          (chunk.elements.filterMap (field.valueOf? schema))
          (chunk.elements.filterMap (field.keptOf? schema)) :=
        says_chunk hf hp hrep (formed chunk (by simp))
      have hrest := ih (fun other ho => formed other (by simp [ho]))
      simp only [List.flatMap_cons, List.filterMap_append]
      exact hfirst.append hrest

/-- Chunks in a row are read, all for the field. -/
theorem exists_readings_of_chunks (hrep : field.isRepeated = true) {chunks : List Chunk}
    (formed : ∀ chunk ∈ chunks, chunk.Formed field)
    : ∃ readings,
        (chunks.flatMap (Chunk.units field)).mapM (readUnit? nested schema type) = some readings
        ∧ ∀ tag,
            Reading.valuesAt readings tag
                = (if field.tag = tag then
                    (chunks.flatMap Chunk.elements).filterMap (field.valueOf? schema)
                  else [])
            ∧ Reading.keptAt readings tag
                = if field.tag = tag then
                    (chunks.flatMap Chunk.elements).filterMap (field.keptOf? schema)
                  else [] := by
  have hsays : Says nested schema type (chunks.flatMap (Chunk.units field))
      ((chunks.flatMap Chunk.elements).filterMap (field.valueOf? schema))
      ((chunks.flatMap Chunk.elements).filterMap (field.keptOf? schema)) :=
    says_chunks hf hp hrep formed
  rcases hsays with ⟨readings, hr, hvalues, hkept⟩
  have tags : ∀ reading ∈ readings, reading.tag = field.tag := by
    intro reading hm
    obtain ⟨unit, hu, hread⟩ := Traversal.exists_of_mem_mapM hr hm
    obtain ⟨chunk, _, hu⟩ := List.mem_flatMap.mp hu
    exact (readUnit?_tag hread).trans (Chunk.tag_of_mem_units hu)
  refine ⟨readings, hr, fun tag => ?_⟩
  rw [← hvalues, ← hkept]
  exact valuesAt_of_tag tags tag

/-- Elements that are cut into other chunks make up the same record, whatever stands around them. -/
theorem decodeBody?_recut (hrep : field.isRepeated = true) (hpos : field.tag ≠ 0)
    (hmax : field.tag ≤ maxTag) {chunks others : List Chunk} (h : Chunk.Recut field chunks others)
    {front : Bytes} {before : List WireUnit} (hfront : WireUnit.units? front = some before)
    (back : Bytes)
    : decodeBody? nested schema type (front ++ (Chunk.bytes field others ++ back))
      = decodeBody? nested schema type (front ++ (Chunk.bytes field chunks ++ back)) := by
  obtain ⟨readings, hr, said⟩ := exists_readings_of_chunks hf hp hrep h.formed
  obtain ⟨reread, ho, resaid⟩ := exists_readings_of_chunks hf hp hrep h.reformed
  refine decodeBody?_exchanged (Chunk.standing_of_formed hpos hmax h.formed)
    (Chunk.standing_of_formed hpos hmax h.reformed) hr ho ?_ hfront back
  intro tag
  rw [(said tag).1, (said tag).2, (resaid tag).1, (resaid tag).2, h.same]
  exact ⟨rfl, rfl⟩

/-- Chunks alone are decoded. The record has the declared values as elements, and keeps the others.
-/
theorem exists_record_of_chunks (hrep : field.isRepeated = true) (hpos : field.tag ≠ 0)
    (hmax : field.tag ≤ maxTag) {chunks : List Chunk}
    (formed : ∀ chunk ∈ chunks, chunk.Formed field)
    : ∃ record,
        decodeBody? nested schema type (Chunk.bytes field chunks) = some record
        ∧ record.elements field.tag
          = (chunks.flatMap Chunk.elements).filterMap (field.valueOf? schema)
        ∧ record.unknown.unitsAt field.tag
          = (chunks.flatMap Chunk.elements).filterMap (field.keptOf? schema) := by
  obtain ⟨readings, hr, said⟩ := exists_readings_of_chunks hf hp hrep formed
  obtain ⟨hvalues, hkept⟩ := said field.tag
  rw [if_pos rfl] at hvalues hkept
  have hu : WireUnit.units? (Chunk.bytes field chunks)
      = some (chunks.flatMap (Chunk.units field)) :=
    WireUnit.units?_flatMap (Chunk.standing_of_formed hpos hmax formed)
  refine ⟨gather schema type readings,
    decodeBody?_eq_some_iff.mpr ⟨_, readings, hu, hr, rfl⟩, ?_, ?_⟩
  · rw [← hvalues, Record.elements, slot?_gather, hf, Option.bind_some]
    cases Reading.valuesAt readings field.tag with
    | nil => rfl
    | cons first rest => simp only [slotOf?, if_pos hrep]
  · rw [unitsAt_gather, hkept]

end Declared

end Reference

/-- Two lists of chunks are read alike. Alone both are decoded to one record, which has the declared
values as elements and keeps the undeclared numbers, in order and each with the shortest key. Behind
whole units and before any bytes, too, one list does for the other.
-/
structure Chunk.ReadAlike (schema : Schema) (name : String) (field : Field)
    (chunks others : List Chunk)
    : Prop where
  alone
    : ∀ limit, ∃ record,
        Record.decode schema name (bytes field chunks) ⟨limit, false⟩ = .ok record
        ∧ Record.decode schema name (bytes field others) ⟨limit, false⟩ = .ok record
        ∧ record.elements field.tag
          = (chunks.flatMap elements).filterMap (field.valueOf? schema)
        ∧ record.unknown.unitsAt field.tag
          = (chunks.flatMap elements).filterMap (field.keptOf? schema)
  among
    : ∀ {front before},
        WireUnit.units? front = some before
        → ∀ back options record,
            Record.decode schema name (front ++ (bytes field others ++ back)) options = .ok record
            ↔ Record.decode schema name (front ++ (bytes field chunks ++ back)) options
              = .ok record

/-- However elements are cut into chunks, packed or apart, they are read alike. -/
theorem Chunk.Recut.readAlike {schema : Schema} (built : schema.Built) {name : String}
    {type : MessageType} (typed : schema.message? name = some type) {field : Field}
    (hf : type.field? field.tag = some field) (hrep : field.isRepeated = true)
    (hp : field.kind.isPackable = true) {chunks others : List Chunk}
    (h : Recut field chunks others)
    : ReadAlike schema name field chunks others := by
  obtain ⟨hpos, hmax⟩ := (built.field_legal typed hf).1
  have exchanged (limit : Nat) {front : Bytes} {before : List WireUnit}
      (hfront : WireUnit.units? front = some before) (back : Bytes)
      : Reference.decode? schema limit name (front ++ (bytes field others ++ back))
        = Reference.decode? schema limit name (front ++ (bytes field chunks ++ back)) := by
    simp only [Reference.decode?, Reference.decodeWithin?, typed, Option.bind_some]
    exact Reference.decodeBody?_recut hf hp hrep hpos hmax h hfront back
  constructor
  · intro limit
    obtain ⟨record, hread, hvalues, hkept⟩ :=
      Reference.exists_record_of_chunks hf hp hrep hpos hmax h.formed
    have hchunks : Reference.decode? schema limit name (bytes field chunks) = some record :=
      Option.bind_eq_some_iff.mpr ⟨type, typed, hread⟩
    have hsame := exchanged limit CutsFront.cutAll?_nil []
    rw [List.nil_append, List.nil_append, List.append_nil, List.append_nil] at hsame
    exact ⟨record, Record.decode_eq_ok_iff.mpr hchunks,
      Record.decode_eq_ok_iff.mpr (hsame.trans hchunks), hvalues, hkept⟩
  · intro front before hfront back options record
    refine Record.decode_eq_ok_iff_unchecked.trans
      (Iff.trans ?_ Record.decode_eq_ok_iff_unchecked.symm)
    rw [Record.decode_eq_ok_iff, Record.decode_eq_ok_iff,
      exchanged options.recursionLimit hfront back]

end TagWire
