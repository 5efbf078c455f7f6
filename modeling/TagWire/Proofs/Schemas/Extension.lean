import TagWire.Proofs.Schemas.Building

/-!
Schemas that grow. A newer schema keeps the message types of an older one and declares their fields
as they were on the wire, and may declare more; the enumerations that they hold stay the same.
-/

namespace TagWire

/-- Two fields are the same on the wire. They may have other names and defaults. -/
structure Field.SameWire (field other : Field) : Prop where
  tag : other.tag = field.tag
  cardinality : other.cardinality = field.cardinality
  kind : other.kind = field.kind
  packed : other.packed = field.packed

/-- A type declares every field of another as the other does, and perhaps more. -/
def MessageType.Covers (wider type : MessageType) : Prop :=
  ∀ {tag field},
    type.field? tag = some field → ∃ other, wider.field? tag = some other ∧ field.SameWire other

/-- Covering is a matter of one field at a time. -/
theorem MessageType.covers_of_fields {wider type : MessageType}
    (h
      : ∀ field ∈ type.fields,
          ∃ other, wider.field? field.tag = some other ∧ field.SameWire other)
    : wider.Covers type := by
  intro tag field hf
  obtain ⟨other, ho, same⟩ := h field (List.mem_of_find?_eq_some hf)
  exact ⟨other, tag_of_field? hf ▸ ho, same⟩

/-- A schema has all message types of another, with fields that cover theirs, and the enumerations
that their fields refer to.
-/
structure Schema.Extends (wide narrow : Schema) : Prop where
  messages
    : ∀ {name type},
        narrow.message? name = some type
        → ∃ wider, wide.message? name = some wider ∧ wider.Covers type
  enums
    : ∀ {name type tag field target},
        narrow.message? name = some type
        → type.field? tag = some field
        → field.kind = .enum target
        → wide.enum? target = narrow.enum? target

theorem Field.SameWire.wireKind {field other : Field} (h : field.SameWire other)
    : other.wireKind = field.wireKind := by
  rw [Field.wireKind, h.kind, Field.wireKind]

theorem Field.SameWire.isRepeated {field other : Field} (h : field.SameWire other)
    : other.isRepeated = field.isRepeated := by
  rw [Field.isRepeated, h.cardinality, Field.isRepeated]

/-- Both schemas declare the same numbers for a field of the older one. -/
theorem Schema.Extends.isUndeclared {wide narrow : Schema} (h : wide.Extends narrow) {name : String}
    {type : MessageType} (typed : narrow.message? name = some type) {tag : Nat} {field : Field}
    (hf : type.field? tag = some field) (value : Scalar)
    : wide.isUndeclared field.kind value = narrow.isUndeclared field.kind value := by
  cases hk : field.kind with
  | enum target =>
      cases value with
      | enum number =>
          rw [Schema.isUndeclared, Schema.isUndeclared, declares, declares,
            h.enums typed hf hk]
      | _ => rfl
  | _ => rfl

end TagWire
