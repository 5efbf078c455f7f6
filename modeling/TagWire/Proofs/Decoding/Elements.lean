import Mathlib.Data.List.Basic
import TagWire.Proofs.Decoding.ReferenceLaws
import TagWire.Proofs.Encoding.Emission

/-!
What the elements of a repeated field say. It does not matter whether an element stands in a packed
run or in a unit of its own with the shortest key.
-/

namespace TagWire

/-- The unit of a packed run. Its key and its length may be written in any form. -/
def Field.run (field : Field) (key length : Bytes) (elements : List Payload) : WireUnit :=
  ⟨field.tag, .lengthDelimited, key, ⟨length, elements.flatMap Payload.bytes⟩⟩

/-- The value that an element is for a field, unless it is an undeclared number. -/
def Field.valueOf? (field : Field) (schema : Schema) (element : Payload) : Option Value :=
  ((field.kind.scalar? element.content).filter (fun value =>
    !schema.isUndeclared field.kind value)).map .scalar

/-- The unit that an element is kept as if it is an undeclared number. -/
def Field.keptOf? (field : Field) (schema : Schema) (element : Payload) : Option RawUnit :=
  if (field.kind.scalar? element.content).any (schema.isUndeclared field.kind) then
    some (field.unit field.wireKind element).raw
  else none

/-- A content that is not delimited always spells a scalar. -/
theorem Kind.exists_scalar? {kind : Kind} (hp : kind.isPackable = true) (content : Bytes)
    : ∃ value, kind.scalar? content = some value := by
  cases kind <;> first | exact ⟨_, rfl⟩ | simp [isPackable, wireKind] at hp

theorem Kind.message?_of_isPackable {kind : Kind} (hp : kind.isPackable = true)
    : kind.message? = none := by
  cases kind <;> first | rfl | simp [isPackable, wireKind] at hp

namespace Reference

variable {schema : Schema} {type : MessageType} {nested : String → Bytes → Option Record}
  {field : Field}

/-- What an element says: its value, or a unit to keep. -/
def elementReading (schema : Schema) (field : Field) (element : Payload) : Reading :=
  ⟨field.tag, (field.valueOf? schema element).toList, (field.keptOf? schema element).toList⟩

/-- What one element after the other says. -/
theorem flatMap_elementReading (schema : Schema) (field : Field) (elements : List Payload)
    : (elements.map (elementReading schema field)).flatMap Reading.values
        = elements.filterMap (field.valueOf? schema)
      ∧ (elements.map (elementReading schema field)).flatMap Reading.kept
        = elements.filterMap (field.keptOf? schema) := by
  rw [List.flatMap_map, List.flatMap_map, List.filterMap_eq_flatMap_toList,
    List.filterMap_eq_flatMap_toList]
  exact ⟨rfl, rfl⟩

/-- What the content of an element says depends on the unit that it stands in only by the unit that
would be kept, and only a varint is ever kept.
-/
theorem readScalar?_spelled {element : Payload} {value : Scalar}
    (spells : field.kind.scalar? element.content = some value) {whole : RawUnit}
    (shortest : field.wireKind = .varint → whole = (field.unit field.wireKind element).raw)
    : readScalar? schema field element.content whole
      = some (elementReading schema field element) := by
  rw [readScalar?, elementReading, Field.valueOf?, Field.keptOf?, spells]
  by_cases hu : schema.isUndeclared field.kind value = true
  · simp [hu, shortest (Schema.wireKind_of_isUndeclared hu)]
  · simp [hu, Option.filter_some]

theorem readScalar?_element (hp : field.kind.isPackable = true) {element : Payload}
    {whole : RawUnit}
    (shortest : field.wireKind = .varint → whole = (field.unit field.wireKind element).raw)
    : readScalar? schema field element.content whole
      = some (elementReading schema field element) := by
  obtain ⟨value, spells⟩ := Kind.exists_scalar? hp element.content
  exact readScalar?_spelled spells shortest

section Declared

variable (hf : type.field? field.tag = some field) (hp : field.kind.isPackable = true)

include hf hp

theorem readUnit?_apart (element : Payload)
    : readUnit? nested schema type (field.unit field.wireKind element)
      = some (elementReading schema field element) := by
  have hread : readScalar? schema field element.content (field.unit field.wireKind element).raw
      = some (elementReading schema field element) :=
    readScalar?_element hp (fun _ => rfl)
  exact (readUnit?_scalar hf rfl (Kind.message?_of_isPackable hp)).trans hread

/-- The unit of a packed run says what the elements in it say. -/
theorem readUnit?_run (hrep : field.isRepeated = true) {elements : List Payload}
    (alone : ∀ element ∈ elements, field.wireKind.payload? element.bytes = some (element, []))
    (key length : Bytes)
    : readUnit? nested schema type (field.run key length elements)
      = some
          ⟨field.tag, elements.filterMap (field.valueOf? schema),
            elements.filterMap (field.keptOf? schema)⟩ := by
  have hw : WireKind.lengthDelimited ≠ field.wireKind := by
    intro he
    rw [Kind.isPackable, ← Field.wireKind, ← he] at hp
    simp at hp
  have hcut : cutAll? field.wireKind.payload? (elements.flatMap Payload.bytes) = some elements :=
    field.wireKind.payload?_cuts.cutAll?_flatMap alone
  have hread : elements.mapM (readElement? schema field)
      = some (elements.map (elementReading schema field)) := by
    have heach : (elements.map id).mapM (readElement? schema field)
        = some (elements.map (elementReading schema field)) :=
      Traversal.mapM_map_eq_some (fun element _ =>
        readScalar?_element hp (fun hvarint => by rw [hvarint]; rfl))
    rwa [List.map_id] at heach
  obtain ⟨hvalues, hkept⟩ := flatMap_elementReading schema field elements
  refine (readUnit?_other hf hw).trans ?_
  rw [if_pos ⟨rfl, hrep, hp⟩, readRun?, Field.run, hcut, Option.bind_some, hread, Option.map_some,
    hvalues, hkept]

end Declared

end Reference

end TagWire
