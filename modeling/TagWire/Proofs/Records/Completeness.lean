import TagWire.Encoding.Basic
import TagWire.Proofs.Records.Conformance
import TagWire.Proofs.Schemas.Closure
import TagWire.Record.Access

/-!
Complete records. A record is complete exactly if nothing is missing in it or in the records nested
in it, and exactly the complete records are encoded.
-/

namespace TagWire

theorem insertText_ne_nil (text : String) (texts : List String) : insertText text texts ≠ [] := by
  cases texts with
  | nil => simp [insertText]
  | cons other rest =>
      rw [insertText]
      split
      · simp
      · split <;> simp

-----------------------------------------------------------------------------------------
-- Values and slots
-----------------------------------------------------------------------------------------

/-- Nothing is missing in a list of values exactly if nothing is in each, whatever the index that
they are counted from.
-/
theorem missingFrom_eq_nil_iff {index : Nat} {values : List Value}
    : missingFrom index values = [] ↔ ∀ value ∈ values, value.missing = [] := by
  induction values generalizing index with
  | nil => simp [missingFrom]
  | cons value rest ih =>
      rw [missingFrom, List.append_eq_nil_iff, List.map_eq_nil_iff, ih, List.forall_mem_cons]

theorem Value.missing_eq_nil_iff {value : Value}
    : value.missing = [] ↔ ∀ nested, value = .message nested → nested.missing = [] := by
  cases value <;> simp [Value.missing]

/-- Nothing is missing in a slot exactly if nothing is in each of its records. -/
theorem Slot.missing_eq_nil_iff {slot : Slot}
    : slot.missing = []
      ↔ ∀ nested, .message nested ∈ slot.values → nested.missing = [] := by
  have each : (∀ value ∈ slot.values, value.missing = [])
      ↔ ∀ nested, .message nested ∈ slot.values → nested.missing = [] := by
    simp only [Value.missing_eq_nil_iff]
    exact ⟨fun h nested hm => h _ hm nested rfl,
      fun h value hm nested he => h nested (he ▸ hm)⟩
  rw [← each]
  cases slot with
  | single value => simp [Slot.missing]
  | repeated values => simp [Slot.missing, missingFrom_eq_nil_iff]

theorem find?_missingSlots (slots : List (Nat × Slot)) (tag : Nat)
    : TagMap.find? (missingSlots slots) tag = (TagMap.find? slots tag).map Slot.missing := by
  induction slots with
  | nil => rfl
  | cons entry rest ih =>
      obtain ⟨head, slot⟩ := entry
      rw [missingSlots, TagMap.find?, TagMap.find?, ih]
      split <;> rfl

namespace Record

variable {schema : Schema} {record : Record}

-----------------------------------------------------------------------------------------
-- Records
-----------------------------------------------------------------------------------------

/-- The positions that are missing at a field and below it. -/
def missingAt (record : Record) (field : Field) : List Position :=
  match record.slot? field.tag with
  | none => if field.isRequired then [[.field field.name]] else []
  | some (.repeated values) =>
      if field.kind.isMessage then (Slot.repeated values).missing.map (.field field.name :: ·)
      else []
  | some (.single value) => value.missing.map (.field field.name :: ·)

theorem missing_eq (record : Record)
    : record.missing = record.type.fields.flatMap record.missingAt := by
  obtain ⟨schema, type, slots, unknown⟩ := record
  rw [missing]
  refine congrArg (type.fields.flatMap ·) (funext fun field => ?_)
  simp only [missingAt, slot?, find?_missingSlots]
  cases TagMap.find? slots field.tag with
  | none => rfl
  | some slot =>
      cases slot with
      | single value => simp [Slot.missing]
      | repeated values => rfl

/-- Nothing is missing at a field exactly if it is set where it has to be, and nothing is missing in
the records that it holds.
-/
theorem Conforms.missingAt_eq_nil_iff (hc : record.Conforms schema) {field : Field}
    (hf : record.type.field? field.tag = some field)
    : record.missingAt field = []
      ↔ (field.isRequired = true → record.isSet field.tag = true)
        ∧ ∀ nested, .message nested ∈ record.valuesAt field.tag → nested.missing = [] := by
  cases hs : record.slot? field.tag with
  | none => simp [missingAt, isSet, valuesAt, hs]
  | some slot =>
      have hslot := hc.slot_of_field hs hf
      rw [valuesAt_of_slot? hs, ← Slot.missing_eq_nil_iff]
      cases slot with
      | single value => simp [missingAt, isSet, hs, Slot.missing]
      | repeated values =>
          have scalars : field.kind.isMessage = false → (Slot.repeated values).missing = [] := by
            intro hk
            refine Slot.missing_eq_nil_iff.mpr (fun nested hm => ?_)
            have hkind := (hslot.value hm).fits.kind_eq
            simp [hkind, Kind.isMessage, Kind.message?] at hk
          cases hk : field.kind.isMessage with
          | true => simp [missingAt, isSet, hs, hk]
          | false => simp [missingAt, isSet, hs, hk, scalars hk]

/-- Nothing is missing in a record exactly if its required fields are set, and nothing is missing in
the records nested in it.
-/
theorem Conforms.missing_eq_nil_iff (built : schema.Built) (hc : record.Conforms schema)
    : record.missing = []
      ↔ (∀ field ∈ record.type.fields, field.isRequired = true → record.isSet field.tag = true)
        ∧ ∀ nested, record.Holds nested → nested.missing = [] := by
  have distinct {field : Field} (hm : field ∈ record.type.fields)
      : record.type.field? field.tag = some field :=
    MessageType.field?_of_mem (built.messages _ (List.mem_of_find?_eq_some hc.here.typed)) hm
  rw [missing_eq, List.flatMap_eq_nil_iff]
  constructor
  · intro h
    refine ⟨fun field hm => ((hc.missingAt_eq_nil_iff (distinct hm)).mp (h field hm)).1, ?_⟩
    rintro nested ⟨⟨tag, slot⟩, hentry, hm⟩
    have hs := hc.here.ascending.find?_of_mem hentry
    obtain ⟨field, hf, _⟩ := hc.slot hs
    obtain rfl := MessageType.tag_of_field? hf
    refine ((hc.missingAt_eq_nil_iff hf).mp (h field (List.mem_of_find?_eq_some hf))).2 nested ?_
    rwa [valuesAt_of_slot? hs]
  · rintro ⟨required, below⟩ field hm
    exact (hc.missingAt_eq_nil_iff (distinct hm)).mpr
      ⟨required field hm, fun nested hn => below nested (holds_of_mem_valuesAt hn)⟩

-----------------------------------------------------------------------------------------
-- Encoding
-----------------------------------------------------------------------------------------

/-- Each missing position has a path, so no paths are reported only if nothing is missing. -/
theorem isComplete_iff : record.isComplete = true ↔ record.missing = [] := by
  rw [isComplete, missingPaths]
  cases record.missing with
  | nil => simp
  | cons position rest => simp [insertText_ne_nil]

theorem isComplete_eq_false_iff : record.isComplete = false ↔ record.missing ≠ [] := by
  rw [← Bool.not_eq_true, isComplete_iff]

theorem encode_complete (h : record.isComplete = true) : record.encode = .ok record.bytes := by
  simp [encode, checkRequired, h, bind, Except.bind, pure, Except.pure]

theorem encode_incomplete (h : record.isComplete = false)
    : record.encode = .error (.missingRequired record.type.name record.missingPaths) := by
  simp [encode, checkRequired, h, bind, Except.bind]

end Record

end TagWire
