import TagWire.Proofs.Records.Nesting
import TagWire.Proofs.Schemas.Building
import TagWire.Proofs.Wire.Scalars

/-!
What a record of a schema looks like: every slot is of a declared field and of its shape and kind,
every unknown unit is one that the type has no place for, and so for every record nested in it.
-/

namespace TagWire

/-- A value is of a kind, and a number is one that the kind's enumeration declares. Of a record only
the name of its type is asked.
-/
structure Value.Fits (schema : Schema) (kind : Kind) (value : Value) : Prop where
  ofKind : value.isOfKind kind = true
  declared : ∀ scalar, value = .scalar scalar → schema.isUndeclared kind scalar = false

/-- A slot has the shape of a field: one value, or a list that is not empty, of the field's kind. -/
inductive Slot.Fits (schema : Schema) (field : Field) : Slot → Prop
  | single {value : Value} (singular : field.isRepeated = false)
    (fits : value.Fits schema field.kind)
    : Slot.Fits schema field (.single value)
  | repeated {values : List Value} (repeated : field.isRepeated = true) (nonempty : values ≠ [])
    (fits : ∀ value ∈ values, value.Fits schema field.kind)
    : Slot.Fits schema field (.repeated values)

/-- A type has no place for a unit: it does not declare the tag, or the unit is the number of an
enumeration that does not declare it.
-/
def WireUnit.Foreign (schema : Schema) (type : MessageType) (unit : WireUnit) : Prop :=
  type.field? unit.tag = none
  ∨ ∃ field value,
      type.field? unit.tag = some field
      ∧ unit.wire = field.wireKind
      ∧ field.kind.scalar? unit.payload.content = some value
      ∧ schema.isUndeclared field.kind value = true

/-- A unit may be kept: its bytes are one whole unit, which the type has no place for. -/
def RawUnit.Keepable (schema : Schema) (type : MessageType) (unit : RawUnit) : Prop :=
  ∃ whole : WireUnit, whole.Standing ∧ whole.raw = unit ∧ whole.Foreign schema type

/-- Units are kept under their own tags, and no tag has an empty list. -/
structure UnknownSet.Fits (schema : Schema) (type : MessageType) (set : UnknownSet) : Prop where
  ascending : TagMap.Ascending set
  nonempty : ∀ {tag units}, TagMap.find? set tag = some units → units ≠ []
  filed
    : ∀ {tag units}, TagMap.find? set tag = some units → ∀ unit ∈ units, unit.tag = tag
  keepable
    : ∀ {tag units},
        TagMap.find? set tag = some units → ∀ unit ∈ units, unit.Keepable schema type

/-- A record respects its type, apart from what the records nested in it are like. -/
structure Record.Sound (schema : Schema) (record : Record) : Prop where
  ofSchema : record.schema = schema
  typed : schema.message? record.type.name = some record.type
  ascending : TagMap.Ascending record.slots
  slots
    : ∀ {tag slot},
        record.slot? tag = some slot
        → ∃ field, record.type.field? tag = some field ∧ slot.Fits schema field
  unknown : record.unknown.Fits schema record.type

/-- A record respects its type, and so does every record nested in it. -/
inductive Record.Conforms (schema : Schema) : Record → Prop
  | intro {record : Record} (here : record.Sound schema)
    (below : ∀ nested, record.Holds nested → nested.Conforms schema)
    : record.Conforms schema

/-- A value fits a kind, and a record conforms. -/
structure Value.Conforms (schema : Schema) (kind : Kind) (value : Value) : Prop where
  fits : value.Fits schema kind
  nested : ∀ record, value = .message record → record.Conforms schema

/-- A slot fits a field, and its records conform. -/
structure Slot.Conforms (schema : Schema) (field : Field) (slot : Slot) : Prop where
  fits : slot.Fits schema field
  nested : ∀ record, .message record ∈ slot.values → record.Conforms schema

namespace Record.Conforms

variable {schema : Schema} {record : Record}

theorem here (h : record.Conforms schema) : record.Sound schema := by
  cases h with
  | intro here _ => exact here

theorem inner (h : record.Conforms schema) {nested : Record} (hn : record.Holds nested)
    : nested.Conforms schema := by
  cases h with
  | intro _ below => exact below nested hn

/-- What stands at a tag conforms to the field that the tag declares. -/
theorem slot (h : record.Conforms schema) {tag : Nat} {slot : Slot}
    (hs : record.slot? tag = some slot)
    : ∃ field, record.type.field? tag = some field ∧ slot.Conforms schema field := by
  obtain ⟨field, hf, fits⟩ := h.here.slots hs
  exact ⟨field, hf, fits, fun nested hm => h.inner (holds_of_slot? hs hm)⟩

theorem slot_of_field (h : record.Conforms schema) {tag : Nat} {slot : Slot} {field : Field}
    (hs : record.slot? tag = some slot) (hf : record.type.field? tag = some field)
    : slot.Conforms schema field := by
  obtain ⟨declared, hd, hc⟩ := h.slot hs
  obtain rfl := Option.some.inj (hd.symm.trans hf)
  exact hc

theorem slot?_eq_none (h : record.Conforms schema) {tag : Nat}
    (hf : record.type.field? tag = none)
    : record.slot? tag = none := by
  cases hs : record.slot? tag with
  | none => rfl
  | some slot =>
      obtain ⟨field, hd, _⟩ := h.slot hs
      simp [hf] at hd

/-- Records of one type name are of one type. -/
theorem type_eq {other : Record} (h : record.Conforms schema) (ho : other.Conforms schema)
    (same : record.type.name = other.type.name)
    : record.type = other.type := by
  have he := h.here.typed
  rw [same, ho.here.typed] at he
  exact (Option.some.inj he).symm

/-- A record conforms if what stands at each of its tags does. -/
theorem of_slots (ofSchema : record.schema = schema)
    (typed : schema.message? record.type.name = some record.type)
    (ascending : TagMap.Ascending record.slots)
    (slots
      : ∀ {tag slot},
          record.slot? tag = some slot
          → ∃ field, record.type.field? tag = some field ∧ slot.Conforms schema field)
    (unknown : record.unknown.Fits schema record.type)
    : record.Conforms schema := by
  refine .intro ⟨ofSchema, typed, ascending, fun hs => ?_, unknown⟩ ?_
  · obtain ⟨field, hf, hc⟩ := slots hs
    exact ⟨field, hf, hc.fits⟩
  · rintro nested ⟨⟨tag, slot⟩, hentry, hm⟩
    obtain ⟨field, _, hc⟩ := slots (ascending.find?_of_mem hentry)
    exact hc.nested nested hm

end Record.Conforms

namespace Slot.Conforms

variable {schema : Schema} {field : Field}

theorem single {value : Value} (singular : field.isRepeated = false)
    (h : value.Conforms schema field.kind)
    : (Slot.single value).Conforms schema field :=
  ⟨.single singular h.fits, fun record hm => h.nested record (List.mem_singleton.mp hm).symm⟩

theorem repeated {values : List Value} (repeated : field.isRepeated = true)
    (nonempty : values ≠ []) (h : ∀ value ∈ values, value.Conforms schema field.kind)
    : (Slot.repeated values).Conforms schema field :=
  ⟨.repeated repeated nonempty (fun value hv => (h value hv).fits),
    fun record hm => (h _ hm).nested record rfl⟩

theorem value {value : Value} {slot : Slot} (h : slot.Conforms schema field)
    (hv : value ∈ slot.values)
    : value.Conforms schema field.kind := by
  refine ⟨?_, fun record he => h.nested record (he ▸ hv)⟩
  cases h.fits with
  | single _ fits => exact (List.mem_singleton.mp hv) ▸ fits
  | repeated _ _ fits => exact fits value hv

theorem singular {value : Value} (h : (Slot.single value).Conforms schema field)
    : field.isRepeated = false := by
  cases h.fits with
  | single singular _ => exact singular

theorem isRepeated {values : List Value} (h : (Slot.repeated values).Conforms schema field)
    : field.isRepeated = true ∧ values ≠ [] := by
  cases h.fits with
  | repeated repeated nonempty _ => exact ⟨repeated, nonempty⟩

theorem exists_single {slot : Slot} (h : slot.Conforms schema field)
    (singular : field.isRepeated = false)
    : ∃ value, slot = .single value := by
  cases slot with
  | single value => exact ⟨value, rfl⟩
  | repeated values => exact absurd h.isRepeated.1 (by simp [singular])

theorem exists_repeated {slot : Slot} (h : slot.Conforms schema field)
    (repeated : field.isRepeated = true)
    : ∃ values, slot = .repeated values := by
  cases slot with
  | single value => exact absurd repeated (by simp [h.singular])
  | repeated values => exact ⟨values, rfl⟩

end Slot.Conforms

namespace Value

variable {schema : Schema} {kind : Kind}

theorem Conforms.scalar {scalar : Scalar} (ofKind : scalar.isOfKind kind = true)
    (declared : schema.isUndeclared kind scalar = false)
    : (Value.scalar scalar).Conforms schema kind :=
  ⟨⟨ofKind, by rintro _ ⟨⟩; exact declared⟩, by rintro _ ⟨⟩⟩

theorem Conforms.message {record : Record} (h : record.Conforms schema)
    : (Value.message record).Conforms schema (.message record.type.name) :=
  ⟨⟨by simp [isOfKind], by rintro _ ⟨⟩⟩, by rintro _ ⟨⟩; exact h⟩

/-- A kind that a record fits is that of messages of the record's type. -/
theorem Fits.kind_eq {record : Record} (h : (Value.message record).Fits schema kind)
    : kind = .message record.type.name := by
  simpa [isOfKind] using h.ofKind

/-- What fits the kind of a message type is a record. -/
theorem Fits.exists_record {value : Value} {name : String}
    (h : value.Fits schema (.message name))
    : ∃ record, value = .message record ∧ record.type.name = name := by
  cases value with
  | scalar scalar =>
      have hk := h.ofKind
      cases scalar <;> simp [isOfKind, Scalar.isOfKind] at hk
  | message record =>
      have hk : name = record.type.name := by simpa using h.kind_eq
      exact ⟨record, rfl, hk.symm⟩

end Value

namespace Record

variable {schema : Schema}

@[simp] theorem empty_schema (type : MessageType) : (empty schema type).schema = schema := rfl

@[simp] theorem empty_type (type : MessageType) : (empty schema type).type = type := rfl

@[simp] theorem slot?_empty (type : MessageType) (tag : Nat)
    : (empty schema type).slot? tag = none :=
  rfl

theorem nil_unknown_fits (type : MessageType) : UnknownSet.Fits schema type [] := by
  refine ⟨TagMap.Ascending.nil, ?_, ?_, ?_⟩
  all_goals intro tag _ hs; simp [TagMap.find?] at hs

/-- An empty record of a declared type conforms. -/
theorem empty_conforms {name : String} {type : MessageType}
    (h : schema.message? name = some type)
    : (empty schema type).Conforms schema := by
  have hname := Schema.name_of_message? h
  refine .of_slots rfl (hname.symm ▸ h) TagMap.Ascending.nil ?_ (nil_unknown_fits type)
  intro tag _ hs
  simp at hs

end Record

end TagWire
