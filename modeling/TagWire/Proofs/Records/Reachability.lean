import TagWire.Proofs.Decoding.Concatenation

/-!
Records that a program can come by: new ones, decoded ones, and what becomes of them by operations
on them and on the records nested in them. All of them conform to their schema.
-/

namespace TagWire

/-- An operation that may change a record. -/
inductive Edit where
  | set (tag : Nat) (value : Value)
  | append (tag : Nat) (value : Value)
  | clear (tag : Nat)
  | addMessage (tag : Nat)
  | merge (other : Record)
  | mergeBytes (bytes : Bytes)
  | dropUnknown
  /-- Nothing, where a path leads. To follow it may have set message fields on the way. -/
  | visit

namespace Edit

/-- The records that an operation is given. -/
def given : Edit → List Record
  | set _ (.message record) | append _ (.message record) | merge record => [record]
  | _ => []

/-- A record after an operation, which may have been refused. -/
def apply : Edit → Record → Record
  | set tag value, record => (record.attempt (fun record => record.set tag value)).2
  | append tag value, record => (record.attempt (fun record => record.append tag value)).2
  | clear tag, record => (record.attempt (fun record => record.clear tag)).2
  | addMessage tag, record => (record.attempt (fun record => record.addMessage tag)).2
  | merge other, record => (record.attempt (fun record => record.merge other)).2
  | mergeBytes bytes, record => (record.attempt (fun record => record.mergeBytes bytes)).2
  | dropUnknown, record => record.dropUnknown
  | visit, record => record

end Edit

/-- A record after an operation on the record that a path leads to. -/
def Record.editAt (record : Record) (edit : Edit) (path : List Hop) : Record :=
  (Record.actAt (fun nested => ((), edit.apply nested)) path record).2

/-- Records of a schema that a program can come by. The records that it gives to an operation are
of this sort themselves, and so are those that it takes out of others.
-/
inductive Record.Reachable (schema : Schema) : Record → Prop
  | made {name : String} {record : Record} (h : make schema name = .ok record)
    : record.Reachable schema
  | decoded {name : String} {bytes : Bytes} {options : DecodeOptions} {record : Record}
    (h : decode schema name bytes options = .ok record)
    : record.Reachable schema
  | edited {record : Record} {edit : Edit} (path : List Hop) (h : record.Reachable schema)
    (given : ∀ other ∈ edit.given, other.Reachable schema)
    : (record.editAt edit path).Reachable schema
  | taken {record nested : Record} (h : record.Reachable schema) (holds : record.Holds nested)
    : nested.Reachable schema

-----------------------------------------------------------------------------------------
-- Operations on slots
-----------------------------------------------------------------------------------------

namespace Record

variable {schema : Schema} {record : Record}

/-- What comes of a conforming record conforms and is of the same type. -/
def Keeps (schema : Schema) (record next : Record) : Prop :=
  next.Conforms schema ∧ next.type = record.type

/-- What comes of a nested record conforms where the record stood. -/
theorem Keeps.value {kind : Kind} {nested next : Record}
    (hk : kind = .message nested.type.name) (h : nested.Keeps schema next)
    : (Value.message next).Conforms schema kind := by
  rw [hk, ← h.2]
  exact .message h.1

theorem slot?_putSlot (record : Record) (tag : Nat) (slot : Slot) (other : Nat)
    : (record.putSlot tag slot).slot? other
      = if tag = other then some slot else record.slot? other :=
  TagMap.find?_insert tag slot record.slots other

theorem putSlot_keeps (hc : record.Conforms schema) {tag : Nat} {field : Field}
    (hf : record.type.field? tag = some field) {slot : Slot} (hs : slot.Conforms schema field)
    : record.Keeps schema (record.putSlot tag slot) := by
  refine ⟨.of_slots hc.here.ofSchema hc.here.typed hc.here.ascending.insert ?_ hc.here.unknown, rfl⟩
  intro other held hheld
  rw [slot?_putSlot] at hheld
  split at hheld
  · next he =>
      subst he
      exact ⟨field, hf, Option.some.inj hheld ▸ hs⟩
  · exact hc.slot hheld

theorem slot?_erase (record : Record) (tag other : Nat)
    : slot? { record with slots := TagMap.erase tag record.slots } other
      = if tag = other then none else record.slot? other :=
  TagMap.find?_erase tag record.slots other

theorem erase_keeps (hc : record.Conforms schema) (tag : Nat)
    : record.Keeps schema { record with slots := TagMap.erase tag record.slots } := by
  refine ⟨.of_slots hc.here.ofSchema hc.here.typed hc.here.ascending.erase ?_ hc.here.unknown, rfl⟩
  intro other held hheld
  rw [slot?_erase] at hheld
  split at hheld
  · simp at hheld
  · exact hc.slot hheld

/-- A value that a field accepts fits the field's kind. -/
theorem fits_of_check (ofSchema : record.schema = schema) {field : Field} {value : Value}
    (h : record.check field value = .ok ())
    : value.Fits schema field.kind := by
  unfold check at h
  split at h
  · simp at h
  · next hk =>
      refine ⟨by simpa using hk, fun scalar he => ?_⟩
      subst he
      split at h
      · next number he =>
          cases he
          split at h
          · simp at h
          · next hu => simpa [ofSchema] using hu
      · next hother =>
          cases scalar with
          | enum number => exact absurd rfl (hother number)
          | _ => cases field.kind <;> rfl

/-- What follows a step that may refuse is only done if the step is not refused. -/
theorem bind_eq_ok {ε α β : Type} {step : Except ε α} {next : α → Except ε β} {result : β}
    (h : step >>= next = .ok result)
    : ∃ value, step = .ok value ∧ next value = .ok result := by
  cases step with
  | error cause => simp [bind, Except.bind] at h
  | ok value => exact ⟨value, rfl, h⟩

/-- What follows a guard is only done if the guard lets it pass. -/
theorem guard_eq_ok {ε β : Type} {refused : Prop} [Decidable refused] {cause : ε}
    {next : Unit → Except ε β} {result : β}
    (h : (if refused then throw cause >>= next else next ()) = .ok result)
    : ¬ refused ∧ next () = .ok result := by
  split at h
  · simp [throw, throwThe, MonadExceptOf.throw, bind, Except.bind] at h
  · next hr => exact ⟨hr, h⟩

theorem field?_of_fieldAt {tag : Nat} {field : Field} (h : record.fieldAt tag = .ok field)
    : record.type.field? tag = some field := by
  unfold fieldAt at h
  split at h
  · next hf => rw [hf, Except.ok.inj h]
  · simp at h

-----------------------------------------------------------------------------------------
-- Operations on fields
-----------------------------------------------------------------------------------------

section Fields

variable {tag : Nat} {next : Record}

theorem get_of_single {field : Field} (hf : record.type.field? tag = some field)
    (singular : field.isRepeated = false) {value : Value}
    (hs : record.slot? tag = some (.single value))
    : record.get tag = .ok value := by
  simp [get, fieldAt, hf, singular, hs, bind, Except.bind, pure, Except.pure]

theorem clear_keeps (hc : record.Conforms schema) (h : record.clear tag = .ok next)
    : record.Keeps schema next := by
  obtain ⟨field, _, h⟩ := bind_eq_ok h
  rw [← Except.ok.inj h]
  exact erase_keeps hc tag

/-- A value that is set is accepted by a singular field, and stands at its tag. -/
theorem set_eq_ok {value : Value} (h : record.set tag value = .ok next)
    : ∃ field,
        record.type.field? tag = some field
        ∧ field.isRepeated = false
        ∧ record.check field value = .ok ()
        ∧ next = record.putSlot tag (.single value) := by
  obtain ⟨field, hf, h⟩ := bind_eq_ok h
  obtain ⟨hrep, h⟩ := guard_eq_ok h
  obtain ⟨_, hcheck, h⟩ := bind_eq_ok h
  exact ⟨field, field?_of_fieldAt hf, by simpa using hrep, hcheck, (Except.ok.inj h).symm⟩

theorem set_keeps (hc : record.Conforms schema) {value : Value}
    (hv : ∀ nested, value = .message nested → nested.Conforms schema)
    (h : record.set tag value = .ok next)
    : record.Keeps schema next := by
  obtain ⟨field, hf, hrep, hcheck, rfl⟩ := set_eq_ok h
  exact putSlot_keeps hc hf (.single hrep ⟨fits_of_check hc.here.ofSchema hcheck, hv⟩)

/-- A repeated field with one more value, or with its first. -/
theorem extended_keeps (hc : record.Conforms schema) {field : Field}
    (hf : record.type.field? tag = some field) (hrep : field.isRepeated = true) {value : Value}
    (hv : value.Conforms schema field.kind) {values : List Value}
    (held : record.slot? tag = none ∧ values = [] ∨ record.slot? tag = some (.repeated values))
    : record.Keeps schema (record.putSlot tag (.repeated (values ++ [value]))) := by
  refine putSlot_keeps hc hf (.repeated hrep (by simp) (fun other ho => ?_))
  rcases List.mem_append.mp ho with ho | ho
  · rcases held with ⟨_, rfl⟩ | hs
    · simp at ho
    · exact (hc.slot_of_field hs hf).value ho
  · exact List.mem_singleton.mp ho ▸ hv

theorem append_keeps (hc : record.Conforms schema) {value : Value}
    (hv : ∀ nested, value = .message nested → nested.Conforms schema)
    (h : record.append tag value = .ok next)
    : record.Keeps schema next := by
  obtain ⟨field, hf, h⟩ := bind_eq_ok h
  obtain ⟨hrep, h⟩ := guard_eq_ok h
  obtain ⟨_, hcheck, h⟩ := bind_eq_ok h
  have hf := field?_of_fieldAt hf
  have hrep : field.isRepeated = true := by simpa using hrep
  have hvalue : value.Conforms schema field.kind := ⟨fits_of_check hc.here.ofSchema hcheck, hv⟩
  split at h
  · next hs =>
      rw [← Except.ok.inj h]
      exact extended_keeps hc hf hrep hvalue (.inl ⟨hs, rfl⟩)
  · next values hs =>
      rw [← Except.ok.inj h]
      exact extended_keeps hc hf hrep hvalue (.inr hs)
  · simp [throw, throwThe, MonadExceptOf.throw] at h

theorem message?_of_messageKind {field : Field} {name : String}
    (h : record.messageKind field = .ok name)
    : field.kind = .message name := by
  unfold messageKind at h
  split at h
  · next type hm =>
      obtain rfl := Except.ok.inj h
      exact Kind.eq_message_of_message? hm
  · simp at h

theorem conforms_of_make {name : String} (h : make schema name = .ok record)
    : record.Conforms schema ∧ record.type.name = name := by
  unfold make at h
  split at h
  · next type hm =>
      obtain rfl := Except.ok.inj h
      exact ⟨empty_conforms hm, Schema.name_of_message? hm⟩
  · simp at h

theorem addMessage_keeps (hc : record.Conforms schema) (h : record.addMessage tag = .ok next)
    : record.Keeps schema next := by
  obtain ⟨field, hf, h⟩ := bind_eq_ok h
  obtain ⟨hrep, h⟩ := guard_eq_ok h
  obtain ⟨name, hname, h⟩ := bind_eq_ok h
  obtain ⟨nested, hmake, h⟩ := bind_eq_ok h
  have hf := field?_of_fieldAt hf
  have hrep : field.isRepeated = true := by simpa using hrep
  rw [hc.here.ofSchema] at hmake
  obtain ⟨hnested, htype⟩ := conforms_of_make hmake
  have hvalue : (Value.message nested).Conforms schema field.kind := by
    rw [message?_of_messageKind hname, ← htype]
    exact .message hnested
  split at h
  · next hs =>
      rw [← Except.ok.inj h]
      exact extended_keeps hc hf hrep hvalue (.inl ⟨hs, rfl⟩)
  · next values hs =>
      rw [← Except.ok.inj h]
      exact extended_keeps hc hf hrep hvalue (.inr hs)
  · simp [throw, throwThe, MonadExceptOf.throw] at h

end Fields

-----------------------------------------------------------------------------------------
-- Operations on whole records
-----------------------------------------------------------------------------------------

section Whole

variable {next : Record}

theorem merge_keeps (hc : record.Conforms schema) {other : Record} (ho : other.Conforms schema)
    (h : record.merge other = .ok next)
    : record.Keeps schema next := by
  obtain ⟨named, rfl⟩ := of_merge_eq_ok h
  have same : record.type = other.type := (ho.type_eq hc named).symm
  exact ⟨hc.overlay ho same, overlay_type record other⟩

theorem conforms_of_decode {name : String} {bytes : Bytes} {options : DecodeOptions}
    (h : decode schema name bytes options = .ok record)
    : record.Conforms schema ∧ record.type.name = name :=
  (of_decode_eq_ok (decode_eq_ok_iff_unchecked.mp h).1).2

theorem mergeBytes_keeps (hc : record.Conforms schema) {bytes : Bytes}
    (h : record.mergeBytes bytes = .ok next)
    : record.Keeps schema next := by
  rw [mergeBytes_eq hc] at h
  cases hd : decode schema record.type.name bytes {} with
  | error cause => simp [hd, Except.map] at h
  | ok other =>
      obtain ⟨ho, hname⟩ := conforms_of_decode hd
      rw [hd] at h
      rw [← Except.ok.inj h]
      exact ⟨hc.overlay ho (hc.type_eq ho hname.symm), overlay_type record other⟩

/-- A record without unknown units has its slots at their tags, each without unknown units. -/
theorem dropUnknownSlots_eq_map (slots : List (Nat × Slot))
    : dropUnknownSlots slots = TagMap.mapValues Slot.dropUnknown slots := by
  induction slots with
  | nil => rfl
  | cons entry rest ih =>
      rw [dropUnknownSlots, ih]
      rfl

theorem values_dropUnknown (slot : Slot)
    : slot.dropUnknown.values = slot.values.map Value.dropUnknown := by
  cases slot with
  | single value => simp [Slot.dropUnknown]
  | repeated values =>
      rw [Slot.dropUnknown, Slot.values_repeated, Slot.values_repeated]
      induction values with
      | nil => rfl
      | cons value rest ih => rw [dropUnknownValues, ih, List.map_cons]

/-- A slot conforms without unknown units, if its records do. -/
theorem slot_dropUnknown_conforms {field : Field} {slot : Slot} (h : slot.Conforms schema field)
    (records
      : ∀ nested, .message nested ∈ slot.values → nested.Keeps schema nested.dropUnknown)
    : slot.dropUnknown.Conforms schema field := by
  have each : ∀ value ∈ slot.values, value.dropUnknown.Conforms schema field.kind := by
    intro value hv
    have hc := h.value hv
    cases value with
    | scalar scalar => exact hc
    | message nested => exact (records nested hv).value hc.fits.kind_eq
  cases slot with
  | single value => exact .single h.singular (each value (by simp))
  | repeated values =>
      obtain ⟨hrep, hne⟩ := h.isRepeated
      have hvalues := values_dropUnknown (.repeated values)
      rw [Slot.dropUnknown, Slot.values_repeated, Slot.values_repeated] at hvalues
      rw [Slot.dropUnknown, hvalues]
      refine .repeated hrep (by simpa using hne) (fun value hm => ?_)
      obtain ⟨held, hh, rfl⟩ := List.mem_map.mp hm
      exact each held hh

/-- Dropping unknown units keeps a record conforming, by induction over the records it holds. -/
theorem dropUnknown_keeps (hc : record.Conforms schema)
    : record.Keeps schema record.dropUnknown := by
  induction record using Record.nestedInduction with
  | step record ih =>
      -- Stated field by field, since dropping takes the record apart by its constructor.
      have htype : record.dropUnknown.type = record.type := by cases record; rw [dropUnknown]
      have hschema : record.dropUnknown.schema = record.schema := by cases record; rw [dropUnknown]
      have hslots : record.dropUnknown.slots
          = TagMap.mapValues Slot.dropUnknown record.slots := by
        cases record; rw [dropUnknown, dropUnknownSlots_eq_map]
      have hunknown : record.dropUnknown.unknown = [] := by cases record; rw [dropUnknown]
      refine ⟨.of_slots (hschema.trans hc.here.ofSchema) (htype ▸ hc.here.typed)
        (hslots ▸ hc.here.ascending.mapValues Slot.dropUnknown) ?_ ?_, htype⟩
      · intro tag slot hs
        rw [slot?, hslots, TagMap.find?_mapValues] at hs
        obtain ⟨held, hheld, rfl⟩ := Option.map_eq_some_iff.mp hs
        obtain ⟨field, hf, hslot⟩ := hc.slot hheld
        refine ⟨field, htype ▸ hf, slot_dropUnknown_conforms hslot (fun nested hm => ?_)⟩
        exact ih nested (holds_of_slot? hheld hm) (hc.inner (holds_of_slot? hheld hm))
      · rw [hunknown]
        exact nil_unknown_fits _

end Whole

-----------------------------------------------------------------------------------------
-- Operations on nested records
-----------------------------------------------------------------------------------------

section Paths

/-- The record of a singular field, or the empty one where there is none, and what comes of it. -/
theorem reach_field_keeps (hc : record.Conforms schema) {tag : Nat} {nested : Record}
    (h : record.reach (.field tag) = .ok nested)
    : nested.Conforms schema
      ∧ ∀ next,
          nested.Keeps schema next → record.Keeps schema (record.replace (.field tag) next) := by
  obtain ⟨field, hf, h⟩ := bind_eq_ok h
  obtain ⟨hrep, h⟩ := guard_eq_ok h
  obtain ⟨name, hname, h⟩ := bind_eq_ok h
  have hf := field?_of_fieldAt hf
  have hk := message?_of_messageKind hname
  have hnested : nested.Conforms schema ∧ nested.type.name = name := by
    split at h
    · rw [hc.here.ofSchema] at h
      exact conforms_of_make h
    · next held hs =>
        obtain rfl : held = nested := Except.ok.inj h
        have hv := (hc.slot_of_field hs hf).value (List.mem_singleton_self _)
        exact ⟨hv.nested held rfl, by simpa using hv.fits.kind_eq.symm.trans hk⟩
    · simp [throw, throwThe, MonadExceptOf.throw] at h
  rcases hnested with ⟨hnc, rfl⟩
  refine ⟨hnc, fun next hnext => ?_⟩
  exact putSlot_keeps hc hf (.single (by simpa using hrep) (hnext.value hk))

/-- An element of a repeated field, and what comes of it. -/
theorem reach_element_keeps (hc : record.Conforms schema) {tag index : Nat} {nested : Record}
    (h : record.reach (.element tag index) = .ok nested)
    : nested.Conforms schema
      ∧ ∀ next,
          nested.Keeps schema next
          → record.Keeps schema (record.replace (.element tag index) next) := by
  obtain ⟨field, hf, h⟩ := bind_eq_ok h
  obtain ⟨hrep, h⟩ := guard_eq_ok h
  obtain ⟨name, _, h⟩ := bind_eq_ok h
  have hf := field?_of_fieldAt hf
  split at h
  · next held he =>
      obtain rfl : held = nested := Except.ok.inj h
      have hm := List.mem_of_getElem? he
      rw [elements] at hm
      split at hm
      · next values hs =>
          have hslot := hc.slot_of_field hs hf
          have hv := hslot.value hm
          refine ⟨hv.nested held rfl, fun next hnext => ?_⟩
          have hne : values.set index (.message next) ≠ [] := by
            simpa using hslot.isRepeated.2
          simp only [replace, hs]
          refine putSlot_keeps hc hf (.repeated (by simpa using hrep) hne (fun value hv' => ?_))
          rcases List.mem_or_eq_of_mem_set hv' with hv' | rfl
          · exact hslot.value hv'
          · exact hnext.value hv.fits.kind_eq
      · simp at hm
  · simp [throw, throwThe, MonadExceptOf.throw] at h

/-- Where a hop leads stands a conforming record, and what comes of it may be put back there. -/
theorem reach_keeps (hc : record.Conforms schema) {hop : Hop} {nested : Record}
    (h : record.reach hop = .ok nested)
    : nested.Conforms schema
      ∧ ∀ next, nested.Keeps schema next → record.Keeps schema (record.replace hop next) := by
  cases hop with
  | field tag => exact reach_field_keeps hc h
  | element tag index => exact reach_element_keeps hc h

/-- An action that keeps records conforming does so at the end of any path, by induction on the
path. Where a hop fails, those before it have been taken.
-/
theorem actAt_keeps {α : Type} {act : Record → α × Record}
    (hact : ∀ nested : Record, nested.Conforms schema → nested.Keeps schema (act nested).2)
    (path : List Hop) (hc : record.Conforms schema)
    : record.Keeps schema (actAt act path record).2 := by
  induction path generalizing record with
  | nil => exact hact record hc
  | cons hop rest ih =>
      rw [actAt]
      cases hr : record.reach hop with
      | error cause => exact ⟨hc, rfl⟩
      | ok nested =>
          obtain ⟨hnested, hput⟩ := reach_keeps hc hr
          exact hput _ (ih hnested)

end Paths

/-- An operation that keeps a record conforming when it is not refused does so in any case. -/
theorem attempt_keeps {ε : Type} {operation : Record → Except ε Record}
    (hc : record.Conforms schema)
    (h : ∀ next, operation record = .ok next → record.Keeps schema next)
    : record.Keeps schema (attempt operation record).2 := by
  rw [attempt]
  cases ho : operation record with
  | error cause => exact ⟨hc, rfl⟩
  | ok next => exact h next ho

/-- Every operation keeps a record conforming, if the records that it is given conform. -/
theorem apply_keeps {edit : Edit} (given : ∀ other ∈ edit.given, other.Conforms schema)
    (hc : record.Conforms schema)
    : record.Keeps schema (edit.apply record) := by
  cases edit with
  | set tag value =>
      refine attempt_keeps hc (fun next h => set_keeps hc (fun nested he => ?_) h)
      subst he
      exact given nested (List.mem_singleton_self nested)
  | append tag value =>
      refine attempt_keeps hc (fun next h => append_keeps hc (fun nested he => ?_) h)
      subst he
      exact given nested (List.mem_singleton_self nested)
  | clear tag => exact attempt_keeps hc (fun next h => clear_keeps hc h)
  | addMessage tag => exact attempt_keeps hc (fun next h => addMessage_keeps hc h)
  | merge other =>
      exact attempt_keeps hc (fun next h =>
        merge_keeps hc (given other (List.mem_singleton_self other)) h)
  | mergeBytes bytes => exact attempt_keeps hc (fun next h => mergeBytes_keeps hc h)
  | dropUnknown => exact dropUnknown_keeps hc
  | visit => exact ⟨hc, rfl⟩

/-- Every record that a program can come by conforms, by induction on how it came by it. -/
theorem Reachable.conforms (h : record.Reachable schema) : record.Conforms schema := by
  induction h with
  | made h => exact (conforms_of_make h).1
  | decoded h => exact (conforms_of_decode h).1
  | edited path _ _ ih given =>
      exact (actAt_keeps (fun nested hn => apply_keeps given hn) path ih).1
  | taken _ holds ih => exact ih.inner holds

end Record

end TagWire
