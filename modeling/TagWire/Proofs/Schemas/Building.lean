import TagWire.AddressBook.Schema
import TagWire.Proofs.Schemas.MessageTypes

/-!
Schemas whose types were declared without fault and fit together. Of their fields it is known that
the tags are legal and that only lists of packable values are packed.
-/

namespace TagWire

theorem Schema.name_of_message? {schema : Schema} {name : String} {type : MessageType}
    (h : schema.message? name = some type)
    : type.name = name := by
  simpa using List.find?_some h

theorem MessageType.tag_of_field? {type : MessageType} {tag : Nat} {field : Field}
    (h : type.field? tag = some field)
    : field.tag = tag := by
  simpa using List.find?_some h

namespace MessageType

/-- A message type without fault has legal tags and packs only lists of packable values. -/
theorem field_legal {type : MessageType} (h : describe type.name type.fields = .ok type)
    {field : Field} (hm : field ∈ type.fields)
    : (field.tag ≠ 0 ∧ field.tag ≤ maxTag)
      ∧ (field.packed = true → field.isRepeated = true ∧ field.kind.isPackable = true) := by
  have legal := legal_of_describe h
  obtain ⟨hpos, hmax, _⟩ := legal.tags field hm
  refine ⟨⟨Nat.one_le_iff_ne_zero.mp hpos, hmax⟩, fun hp => ?_⟩
  obtain ⟨hr, hk⟩ := legal.packed field hm hp
  exact ⟨Field.isRepeated_iff.mpr hr, by simpa [Kind.isPackable] using hk⟩

end MessageType

namespace Schema

/-- A schema was built: each type was declared without fault, and together they are closed. -/
structure Built (schema : Schema) : Prop where
  enums : ∀ type ∈ schema.enums, Enumeration.describe type.name type.values = .ok type
  messages : ∀ type ∈ schema.messages, MessageType.describe type.name type.fields = .ok type
  closed : build schema.enums schema.messages = .ok schema

theorem Built.field_legal {schema : Schema} (h : schema.Built) {name : String} {type : MessageType}
    (typed : schema.message? name = some type) {tag : Nat} {field : Field}
    (hf : type.field? tag = some field)
    : (field.tag ≠ 0 ∧ field.tag ≤ maxTag)
      ∧ (field.packed = true → field.isRepeated = true ∧ field.kind.isPackable = true) :=
  MessageType.field_legal (h.messages type (List.mem_of_find?_eq_some typed))
    (List.mem_of_find?_eq_some hf)

end Schema

/-- The schema of address books is built. -/
theorem AddressBook.schema_built : AddressBook.schema.Built where
  enums type hm := by
    obtain rfl := List.mem_singleton.mp hm
    exact describe_phoneType
  messages := describe_messages
  closed := build_schema

end TagWire
