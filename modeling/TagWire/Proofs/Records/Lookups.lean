import TagWire.Proofs.Decoding.Resolution
import TagWire.Proofs.Encoding.RoundTrip
import TagWire.Proofs.Schemas.Closure

/-!
Reading and going into fields. That types fit together is checked once, when they are put together.
From then on every singular field has a value, set or not, which the field accepts again, and every
record that a field asks for can be made.
-/

namespace TagWire

namespace Record

variable {schema : Schema} {record : Record} {field : Field} {tag : Nat}

-----------------------------------------------------------------------------------------
-- Values of declared fields
-----------------------------------------------------------------------------------------

/-- A field accepts what fits its kind. -/
theorem check_eq_ok (ofSchema : record.schema = schema) {value : Value}
    (h : value.Fits schema field.kind)
    : record.check field value = .ok () := by
  unfold check
  rw [h.ofKind]
  cases value with
  | message nested => rfl
  | scalar scalar =>
      cases scalar with
      | enum number => simp [ofSchema, h.declared _ rfl]
      | _ => rfl

theorem fieldAt_eq_ok (hf : record.type.field? tag = some field)
    : record.fieldAt tag = .ok field := by
  rw [fieldAt, hf]

/-- A value that fits a singular field may be set there. -/
theorem set_accepts (hc : record.Conforms schema) (hf : record.type.field? tag = some field)
    (singular : field.isRepeated = false) {value : Value} (h : value.Fits schema field.kind)
    : record.set tag value = .ok (record.putSlot tag (.single value)) := by
  simp [set, fieldAt_eq_ok hf, singular, check_eq_ok hc.here.ofSchema h, bind, Except.bind, pure,
    Except.pure]

/-- A value that fits a repeated field may be added there. -/
theorem append_accepts (hc : record.Conforms schema) (hf : record.type.field? tag = some field)
    (repeated : field.isRepeated = true) {value : Value} (h : value.Fits schema field.kind)
    : record.append tag value
      = .ok (record.putSlot tag (.repeated (record.elements tag ++ [value]))) := by
  simp only [append, fieldAt_eq_ok hf, repeated, check_eq_ok hc.here.ofSchema h, bind, Except.bind,
    elements]
  cases hs : record.slot? tag with
  | none => rfl
  | some slot =>
      obtain ⟨values, rfl⟩ := (hc.slot_of_field hs hf).exists_repeated repeated
      rfl

/-- A record of the type that a field names can be made. -/
theorem make_of_field (built : schema.Built) (hc : record.Conforms schema)
    (hf : record.type.field? tag = some field) {name : String} (hk : field.kind = .message name)
    : ∃ nested, make record.schema name = .ok nested := by
  obtain ⟨type, ht⟩ := built.exists_message hc.here.typed hf hk
  exact ⟨empty schema type, by rw [make, hc.here.ofSchema, ht]⟩

/-- The zero of a declared field's kind conforms. -/
theorem zero_conforms (built : schema.Built) (hc : record.Conforms schema)
    (hf : record.type.field? tag = some field)
    : ∃ value, record.zero field.kind = .ok value ∧ value.Conforms schema field.kind := by
  cases hk : field.kind with
  | message name =>
      obtain ⟨nested, hmake⟩ := make_of_field built hc hf hk
      refine ⟨.message nested, by rw [zero, hmake]; rfl, ?_⟩
      rw [hc.here.ofSchema] at hmake
      obtain ⟨hnested, rfl⟩ := conforms_of_make hmake
      exact .message hnested
  | enum target =>
      have declared := built.declares_defaultNumber hc.here.typed hf hk
      refine ⟨_, rfl, .scalar (by simp [Scalar.isOfKind]) ?_⟩
      simp [Schema.isUndeclared, hc.here.ofSchema, declared]
  | _ => exact ⟨_, rfl, .scalar rfl rfl⟩

/-- The value that stands for an unset field conforms, whether it is declared or the zero. -/
theorem defaultOf_conforms (built : schema.Built) (hc : record.Conforms schema)
    (hf : record.type.field? tag = some field)
    : ∃ value, record.defaultOf field = .ok value ∧ value.Conforms schema field.kind := by
  rw [defaultOf]
  split
  · next value hd =>
      obtain ⟨ofKind, declared⟩ := built.default_fits hc.here.typed hf hd
      exact ⟨_, rfl, .scalar ofKind declared⟩
  · exact zero_conforms built hc hf

/-- A declared singular field has a value, set or not, and the value conforms. -/
theorem get_conforms (built : schema.Built) (hc : record.Conforms schema)
    (hf : record.type.field? tag = some field) (singular : field.isRepeated = false)
    : ∃ value, record.get tag = .ok value ∧ value.Conforms schema field.kind := by
  cases hs : record.slot? tag with
  | none =>
      obtain ⟨value, hvalue, hconf⟩ := defaultOf_conforms built hc hf
      refine ⟨value, ?_, hconf⟩
      simp [get, fieldAt_eq_ok hf, singular, hs, hvalue, bind, Except.bind]
  | some slot =>
      have hslot := hc.slot_of_field hs hf
      obtain ⟨value, rfl⟩ := hslot.exists_single singular
      exact ⟨value, get_of_single hf singular hs, hslot.value (List.mem_singleton_self value)⟩

-----------------------------------------------------------------------------------------
-- Types that are looked up
-----------------------------------------------------------------------------------------

/-- Steps in a row do not fail in a way in which none of them does. -/
theorem bind_ne_error {ε α β : Type} {step : Except ε α} {next : α → Except ε β} {cause : ε}
    (hs : step ≠ .error cause)
    (hn : ∀ value, step = .ok value → next value ≠ .error cause)
    : step >>= next ≠ .error cause := by
  cases step with
  | error other => exact fun he => hs (congrArg _ (Except.error.inj he))
  | ok value => exact hn value rfl

/-- A guard only fails in its own way. -/
theorem guard_ne_error {ε β : Type} {refused : Prop} [Decidable refused] {own cause : ε}
    {next : Unit → Except ε β} (different : own ≠ cause)
    (hn : next () ≠ .error cause)
    : (if refused then throw own >>= next else next ()) ≠ .error cause := by
  split
  · exact fun he => different (Except.error.inj he)
  · exact hn

variable {name : String}

theorem fieldAt_ne_unknownMessage : record.fieldAt tag ≠ .error (.unknownMessage name) := by
  rw [fieldAt]
  split <;> simp

theorem messageKind_ne_unknownMessage
    : record.messageKind field ≠ .error (.unknownMessage name) := by
  rw [messageKind]
  split <;> simp [wrongKind]

theorem get_ne_unknownMessage (built : schema.Built) (hc : record.Conforms schema)
    : record.get tag ≠ .error (.unknownMessage name) := by
  refine bind_ne_error fieldAt_ne_unknownMessage (fun field hf => ?_)
  refine guard_ne_error (by simp [wrongCardinality]) ?_
  obtain ⟨value, hvalue, _⟩ := defaultOf_conforms built hc (field?_of_fieldAt hf)
  split
  · exact nofun
  · rw [hvalue]
    exact nofun

theorem reach_ne_unknownMessage (built : schema.Built) (hc : record.Conforms schema) (hop : Hop)
    : record.reach hop ≠ .error (.unknownMessage name) := by
  cases hop with
  | field tag =>
      refine bind_ne_error fieldAt_ne_unknownMessage (fun field hf => ?_)
      refine guard_ne_error (by simp [wrongCardinality]) ?_
      refine bind_ne_error messageKind_ne_unknownMessage (fun type htype => ?_)
      obtain ⟨nested, hmake⟩ :=
        make_of_field built hc (field?_of_fieldAt hf) (message?_of_messageKind htype)
      split
      · rw [hmake]
        exact nofun
      · exact nofun
      · exact fun he => by simp [wrongKind, throw, throwThe, MonadExceptOf.throw] at he
  | element tag index =>
      refine bind_ne_error fieldAt_ne_unknownMessage (fun field hf => ?_)
      refine guard_ne_error (by simp [wrongCardinality]) ?_
      refine bind_ne_error messageKind_ne_unknownMessage (fun type _ => ?_)
      split
      · exact nofun
      · exact fun he => by simp [throw, throwThe, MonadExceptOf.throw] at he

theorem addMessage_ne_unknownMessage (built : schema.Built) (hc : record.Conforms schema)
    : record.addMessage tag ≠ .error (.unknownMessage name) := by
  refine bind_ne_error fieldAt_ne_unknownMessage (fun field hf => ?_)
  refine guard_ne_error (by simp [wrongCardinality]) ?_
  refine bind_ne_error messageKind_ne_unknownMessage (fun type htype => ?_)
  obtain ⟨nested, hmake⟩ :=
    make_of_field built hc (field?_of_fieldAt hf) (message?_of_messageKind htype)
  refine bind_ne_error (by simp [hmake]) (fun _ _ => ?_)
  split
  · exact fun he => by cases he
  · exact fun he => by cases he
  · exact fun he => by simp [wrongCardinality, throw, throwThe, MonadExceptOf.throw] at he

/-- A record has a value for each singular field, which the field accepts, and no operation on it
looks for a message type that is not there.
-/
structure Served (record : Record) : Prop where
  values
    : ∀ {tag field},
        record.type.field? tag = some field
        → field.isRepeated = false
        → ∃ value next, record.get tag = .ok value ∧ record.set tag value = .ok next
  get : ∀ tag name, record.get tag ≠ .error (.unknownMessage name)
  reach : ∀ hop name, record.reach hop ≠ .error (.unknownMessage name)
  addMessage : ∀ tag name, record.addMessage tag ≠ .error (.unknownMessage name)

theorem Conforms.served (built : schema.Built) (hc : record.Conforms schema) : record.Served where
  values hf singular := by
    obtain ⟨value, hget, hvalue⟩ := get_conforms built hc hf singular
    exact ⟨value, _, hget, set_accepts hc hf singular hvalue.fits⟩
  get _ _ := get_ne_unknownMessage built hc
  reach hop _ := reach_ne_unknownMessage built hc hop
  addMessage _ _ := addMessage_ne_unknownMessage built hc

end Record

/-- Declared types can be put together into a schema exactly if they fit together. Then every record
that a program can come by is served, and decoding a type of the schema never looks for a message
type that is not there, whatever the bytes, the limit and the demand for required fields.
-/
theorem Schema.build_iff_closed_and_served {enums : List Enumeration} {messages : List MessageType}
    (describedEnums : ∀ type ∈ enums, Enumeration.describe type.name type.values = .ok type)
    (describedMessages
      : ∀ type ∈ messages, MessageType.describe type.name type.fields = .ok type)
    : ((∃ schema, build enums messages = .ok schema) ↔ Closed enums messages)
      ∧ ∀ schema,
          build enums messages = .ok schema
          → (∀ record : Record, record.Reachable schema → record.Served)
            ∧ ∀ type ∈ schema.messages, ∀ bytes options missing,
                Record.decode schema type.name bytes options
                ≠ .error (.unknownMessage missing) := by
  refine ⟨exists_build_iff_closed describedMessages, fun schema hbuild => ?_⟩
  have built : schema.Built := .of_build describedEnums describedMessages hbuild
  refine ⟨fun record hr => hr.conforms.served built, fun type hm bytes options missing => ?_⟩
  obtain ⟨found, hfound⟩ := Option.isSome_iff_exists.mp (isSome_message?_iff.mpr ⟨type, hm, rfl⟩)
  exact Record.decode_ne_unknownMessage built hfound bytes options missing

/-- The types of address books fit together, and a telephone in one says what its sort is, though it
holds a sort that was never declared.
-/
theorem AddressBook.build_iff_closed_and_served_telephone
    : Schema.Closed schema.enums schema.messages
      ∧ oddTelephone.Reachable schema
      ∧ oddTelephone.Served := by
  have hclosed := Schema.build_iff_closed_and_served schema_built.enums schema_built.messages
  have hr : oddTelephone.Reachable schema :=
    .taken reachable_owner ⟨_, List.mem_cons_self, List.mem_cons_self⟩
  exact ⟨hclosed.1.mp ⟨schema, build_schema⟩, hr, (hclosed.2 schema build_schema).1 _ hr⟩

end TagWire
