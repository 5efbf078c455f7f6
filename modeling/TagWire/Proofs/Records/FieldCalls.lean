import TagWire.Proofs.Records.Lookups

/-!
Calls that change one field. Whether a call is accepted, and with which error it is refused, depends
on the field that its tag declares alone. A call that is refused does nothing, and one that is
accepted changes nothing but what stands at its tag, so calls at different tags may change places.
-/

namespace TagWire

-----------------------------------------------------------------------------------------
-- Records that differ at one tag
-----------------------------------------------------------------------------------------

namespace Record

variable {schema : Schema} {record : Record}

/-- A record that differs from another in nothing but what stands at a tag. -/
structure SameBut (tag : Nat) (record changed : Record) : Prop where
  schema : changed.schema = record.schema
  type : changed.type = record.type
  slots : ∀ other, other ≠ tag → changed.slot? other = record.slot? other
  unknown : changed.unknown = record.unknown

/-- A record with another slot at a tag, or with none there. -/
def assign (record : Record) (tag : Nat) : Option Slot → Record
  | some slot => record.putSlot tag slot
  | none => { record with slots := TagMap.erase tag record.slots }

@[simp] theorem assign_schema (tag : Nat) (held : Option Slot)
    : (record.assign tag held).schema = record.schema := by
  cases held <;> rfl

@[simp] theorem assign_type (tag : Nat) (held : Option Slot)
    : (record.assign tag held).type = record.type := by
  cases held <;> rfl

@[simp] theorem assign_unknown (tag : Nat) (held : Option Slot)
    : (record.assign tag held).unknown = record.unknown := by
  cases held <;> rfl

theorem slot?_assign (record : Record) (tag : Nat) (held : Option Slot) (other : Nat)
    : (record.assign tag held).slot? other = if tag = other then held else record.slot? other := by
  cases held with
  | none => exact slot?_erase record tag other
  | some slot => exact slot?_putSlot record tag slot other

@[simp] theorem slot?_assign_self (tag : Nat) (held : Option Slot)
    : (record.assign tag held).slot? tag = held := by
  simp [slot?_assign]

theorem slot?_assign_of_ne {tag other : Nat} (h : other ≠ tag) (held : Option Slot)
    : (record.assign tag held).slot? other = record.slot? other := by
  simp [slot?_assign, h.symm]

theorem sameBut_assign (tag : Nat) (held : Option Slot)
    : record.SameBut tag (record.assign tag held) where
  schema := assign_schema tag held
  type := assign_type tag held
  slots _ h := slot?_assign_of_ne h held
  unknown := assign_unknown tag held

theorem ascending_assign (h : TagMap.Ascending record.slots) (tag : Nat) (held : Option Slot)
    : TagMap.Ascending (record.assign tag held).slots := by
  cases held with
  | none => exact h.erase
  | some slot => exact h.insert

/-- Changes at different tags may change places. -/
theorem assign_comm (h : TagMap.Ascending record.slots) {tag other : Nat}
    (different : other ≠ tag) (held held' : Option Slot)
    : (record.assign tag held).assign other held'
      = (record.assign other held').assign tag held := by
  refine ext_of_slots (by simp) (by simp) (ascending_assign (ascending_assign h _ _) _ _)
    (ascending_assign (ascending_assign h _ _) _ _) (fun tag' => ?_) (by simp)
  by_cases htag : tag = tag' <;> by_cases hother : other = tag' <;> simp_all [slot?_assign]

/-- A record in which what stands at a tag is put there again is the same record. -/
theorem assign_slot? (h : TagMap.Ascending record.slots) (tag : Nat)
    : record.assign tag (record.slot? tag) = record := by
  refine ext_of_slots (by simp) (by simp) (ascending_assign h _ _) h (fun other => ?_) (by simp)
  by_cases he : tag = other <;> simp [slot?_assign, he]

/-- A new record of the type that the field at a tag names. -/
def Fresh (record : Record) (tag : Nat) (nested : Record) : Prop :=
  ∃ field type,
    record.type.field? tag = some field
    ∧ field.kind = .message type.name
    ∧ record.schema.message? type.name = some type
    ∧ nested = .empty record.schema type

theorem fresh_of_type (ofSchema : record.schema = schema) {tag : Nat} {field : Field}
    {type : MessageType} (hf : record.type.field? tag = some field)
    (hk : field.kind = .message type.name)
    (ht : schema.message? type.name = some type)
    : record.Fresh tag (.empty schema type) := by
  subst ofSchema
  exact ⟨field, type, hf, hk, ht, rfl⟩

end Record

-----------------------------------------------------------------------------------------
-- Operations step by step
-----------------------------------------------------------------------------------------

namespace Record

section Steps

variable {ε α β : Type} {step : Except ε α}

theorem bind_of_ok {value : α} (h : step = .ok value) (next : α → Except ε β)
    : step >>= next = next value := by
  rw [h]
  rfl

theorem bind_of_error {cause : ε} (h : step = .error cause) (next : α → Except ε β)
    : step >>= next = .error cause := by
  rw [h]
  rfl

variable {record : Record} {tag : Nat} {field : Field} {guard : Field → Prop}
  [DecidablePred guard]

/-- An operation stops at a field that its guard refuses. -/
theorem access_refused (hf : record.type.field? tag = some field) (h : guard field)
    (own : Field → RecordError) (next : Field → Unit → Except RecordError β)
    : (record.fieldAt tag >>= fun field =>
        if guard field then throw (own field) >>= next field else next field ())
      = .error (own field) := by
  rw [bind_of_ok (fieldAt_eq_ok hf), if_pos h]
  rfl

/-- An operation goes on with a field that its guard lets pass. -/
theorem access_passed (hf : record.type.field? tag = some field) (h : ¬ guard field)
    (own : Field → RecordError) (next : Field → Unit → Except RecordError β)
    : (record.fieldAt tag >>= fun field =>
        if guard field then throw (own field) >>= next field else next field ())
      = next field () := by
  rw [bind_of_ok (fieldAt_eq_ok hf), if_neg h]

end Steps

variable {record : Record}

theorem attempt_of_ok {ε : Type} {operation : Record → Except ε Record} {changed : Record}
    (h : operation record = .ok changed)
    : attempt operation record = (.ok (), changed) := by
  rw [attempt, h]

theorem attempt_of_error {ε : Type} {operation : Record → Except ε Record} {cause : ε}
    (h : operation record = .error cause)
    : attempt operation record = (.error cause, record) := by
  rw [attempt, h]

theorem actAt_hop_of_ok {hop : Hop} {nested : Record} (h : record.reach hop = .ok nested)
    : actAt (fun nested => ((), nested)) [hop] record = (.ok (), record.replace hop nested) := by
  simp only [actAt, h]

theorem actAt_hop_of_error {hop : Hop} {cause : RecordError}
    (h : record.reach hop = .error cause)
    : actAt (fun nested => ((), nested)) [hop] record = (.error cause, record) := by
  simp only [actAt, h]

theorem messageKind_eq_ok {field : Field} {name : String} (hk : field.kind = .message name)
    : record.messageKind field = .ok name := by
  rw [messageKind, hk]
  rfl

theorem messageKind_eq_error {field : Field} (h : field.kind.message? = none)
    : record.messageKind field = .error (record.wrongKind field (.kind "message")) := by
  rw [messageKind, h]

/-- A hop goes into the record that a singular field holds. -/
theorem reach_held {tag : Nat} {field : Field} {name : String} {nested : Record}
    (hf : record.type.field? tag = some field) (singular : field.isRepeated = false)
    (hk : field.kind = .message name)
    (hs : record.slot? tag = some (.single (.message nested)))
    : record.reach (.field tag) = .ok nested := by
  refine (access_passed hf (Bool.eq_false_iff.mp singular) _ _).trans
    ((bind_of_ok (messageKind_eq_ok hk) _).trans ?_)
  rw [hs]
  rfl

/-- A hop goes into a new record where a singular field holds none. -/
theorem reach_unset {tag : Nat} {field : Field} {name : String} {nested : Record}
    (hf : record.type.field? tag = some field) (singular : field.isRepeated = false)
    (hk : field.kind = .message name) (hs : record.slot? tag = none)
    (made : make record.schema name = .ok nested)
    : record.reach (.field tag) = .ok nested := by
  refine (access_passed hf (Bool.eq_false_iff.mp singular) _ _).trans
    ((bind_of_ok (messageKind_eq_ok hk) _).trans ?_)
  rw [hs]
  exact made

theorem make_eq_ok {schema : Schema} {type : MessageType}
    (ht : schema.message? type.name = some type)
    : make schema type.name = .ok (.empty schema type) := by
  rw [make, ht]

end Record

-----------------------------------------------------------------------------------------
-- Calls
-----------------------------------------------------------------------------------------

/-- A call that changes one field. -/
inductive FieldCall where
  | set (tag : Nat) (value : Value)
  | append (tag : Nat) (value : Value)
  | clear (tag : Nat)
  /-- Go into the record of a singular field, without doing anything there. -/
  | messageAt (tag : Nat)
  | addMessage (tag : Nat)

/-- A field of a kind may not hold a value, for what is found: a value of another kind, or a number
that the kind's enumeration does not declare.
-/
inductive Value.Misfits (schema : Schema) (kind : Kind) : Value → Found → Prop
  | kind {value : Value} (h : value.isOfKind kind = false)
    : Misfits schema kind value value.found
  | undeclared {number : Int32} (ofKind : (Value.scalar (.enum number)).isOfKind kind = true)
    (h : schema.isUndeclared kind (.enum number) = true)
    : Misfits schema kind (.scalar (.enum number)) (.undeclared number)

theorem Value.fits_or_misfits (schema : Schema) (kind : Kind) (value : Value)
    : value.Fits schema kind ∨ ∃ found, value.Misfits schema kind found := by
  cases hk : value.isOfKind kind with
  | false => exact .inr ⟨_, .kind hk⟩
  | true =>
      by_cases h : ∀ scalar, value = .scalar scalar → schema.isUndeclared kind scalar = false
      · exact .inl ⟨hk, h⟩
      · simp only [not_forall, Bool.not_eq_false] at h
        obtain ⟨scalar, rfl, hu⟩ := h
        cases scalar with
        | enum number => exact .inr ⟨_, .undeclared hk hu⟩
        | _ => simp [Schema.isUndeclared] at hu

namespace FieldCall

/-- The tag of the field that a call changes. -/
def tag : FieldCall → Nat
  | set tag _ | append tag _ | clear tag | messageAt tag | addMessage tag => tag

/-- The answer to a call, and the record after it. -/
def run : FieldCall → Record → Except RecordError Unit × Record
  | set tag value => Record.attempt (fun record => record.set tag value)
  | append tag value => Record.attempt (fun record => record.append tag value)
  | clear tag => Record.attempt (fun record => record.clear tag)
  | messageAt tag => Record.actAt (fun nested => ((), nested)) [.field tag]
  | addMessage tag => Record.attempt (fun record => record.addMessage tag)

/-- A field is of the cardinality that a call asks for. -/
def SuitsCardinality (field : Field) : FieldCall → Prop
  | set _ _ | messageAt _ => field.isRepeated = false
  | append _ _ | addMessage _ => field.isRepeated = true
  | clear _ => True

/-- A field may hold the value that a call gives it, or holds records if the call goes into one. -/
def SuitsKind (schema : Schema) (field : Field) : FieldCall → Prop
  | set _ value | append _ value => value.Fits schema field.kind
  | messageAt _ | addMessage _ => ∃ name, field.kind = .message name
  | clear _ => True

/-- A call is one for a field that is declared. -/
def Accepted (schema : Schema) (type : MessageType) (call : FieldCall) : Prop :=
  ∃ field,
    type.field? call.tag = some field
    ∧ call.SuitsCardinality field
    ∧ call.SuitsKind schema field

/-- A field is of the other cardinality than a call asks for, and there is an operation for it. -/
inductive Misuses (field : Field) : FieldCall → Operation → Prop
  | set {tag : Nat} {value : Value} (h : field.isRepeated = true)
    : Misuses field (.set tag value) .append
  | append {tag : Nat} {value : Value} (h : field.isRepeated = false)
    : Misuses field (.append tag value) .set
  | messageAt {tag : Nat} (h : field.isRepeated = true)
    : Misuses field (.messageAt tag) .addMessage
  | addMessage {tag : Nat} (h : field.isRepeated = false)
    : Misuses field (.addMessage tag) .messageAt

/-- A field may not hold the value that a call gives it, or holds no records, for what is found. -/
inductive Misfits (schema : Schema) (field : Field) : FieldCall → Found → Prop
  | set {tag : Nat} {value : Value} {found : Found} (h : value.Misfits schema field.kind found)
    : Misfits schema field (.set tag value) found
  | append {tag : Nat} {value : Value} {found : Found}
    (h : value.Misfits schema field.kind found)
    : Misfits schema field (.append tag value) found
  | messageAt {tag : Nat} (h : field.kind.message? = none)
    : Misfits schema field (.messageAt tag) (.kind "message")
  | addMessage {tag : Nat} (h : field.kind.message? = none)
    : Misfits schema field (.addMessage tag) (.kind "message")

/-- The error that a call deserves: first that the field is not declared, then that it is of the
other cardinality, and then that it is of another kind.
-/
inductive Refused (schema : Schema) (type : MessageType) (call : FieldCall) : RecordError → Prop
  | undeclared (h : type.field? call.tag = none)
    : Refused schema type call (.unknownField type.name call.tag)
  | cardinality {field : Field} {advice : Operation} (hf : type.field? call.tag = some field)
    (h : call.Misuses field advice)
    : Refused schema type call (.cardinality type.name field.name field.cardinality advice)
  | kind {field : Field} {found : Found} (hf : type.field? call.tag = some field)
    (suits : call.SuitsCardinality field) (h : call.Misfits schema field found)
    : Refused schema type call (.mismatch type.name field.name field.kind found)

/-- A call is accepted, or it deserves an error. -/
theorem accepted_or_refused (schema : Schema) (type : MessageType) (call : FieldCall)
    : call.Accepted schema type ∨ ∃ error, call.Refused schema type error := by
  cases hf : type.field? call.tag with
  | none => exact .inr ⟨_, .undeclared hf⟩
  | some field =>
      have cardinality : call.SuitsCardinality field ∨ ∃ advice, call.Misuses field advice := by
        cases call <;> cases hrep : field.isRepeated
        all_goals first
          | exact .inl hrep
          | exact .inl trivial
          | exact .inr ⟨_, by constructor; exact hrep⟩
      have kind : call.SuitsKind schema field ∨ ∃ found, call.Misfits schema field found := by
        cases call with
        | set tag value =>
            exact (value.fits_or_misfits schema field.kind).imp_right (.imp fun _ => .set)
        | append tag value =>
            exact (value.fits_or_misfits schema field.kind).imp_right (.imp fun _ => .append)
        | clear tag => exact .inl trivial
        | messageAt tag =>
            cases hm : field.kind.message? with
            | none => exact .inr ⟨_, .messageAt hm⟩
            | some name => exact .inl ⟨name, Kind.eq_message_of_message? hm⟩
        | addMessage tag =>
            cases hm : field.kind.message? with
            | none => exact .inr ⟨_, .addMessage hm⟩
            | some name => exact .inl ⟨name, Kind.eq_message_of_message? hm⟩
      obtain suits | ⟨advice, misuses⟩ := cardinality
      · obtain fits | ⟨found, misfits⟩ := kind
        · exact .inl ⟨field, hf, suits, fits⟩
        · exact .inr ⟨_, .kind hf suits misfits⟩
      · exact .inr ⟨_, .cardinality hf misuses⟩

-----------------------------------------------------------------------------------------
-- What comes of a call
-----------------------------------------------------------------------------------------

section Outcomes

variable {schema : Schema} {record : Record} {field : Field} {call : FieldCall}

/-- What a repeated field lists: nothing while there is no slot. -/
def Lists (held : Option Slot) (values : List Value) : Prop :=
  held = none ∧ values = [] ∨ held = some (.repeated values)

theorem Lists.elements {tag : Nat} {values : List Value}
    (h : Lists (record.slot? tag) values)
    : record.elements tag = values := by
  obtain ⟨hs, rfl⟩ | hs := h <;> simp [Record.elements, hs]

/-- What a call for a field leaves at its tag, by what the field held. -/
inductive Leaves (schema : Schema) (field : Field) (held : Option Slot)
    : FieldCall → Option Slot → Prop
  | set {tag : Nat} {value : Value} (singular : field.isRepeated = false)
    (fits : value.Fits schema field.kind)
    : Leaves schema field held (.set tag value) (some (.single value))
  | append {tag : Nat} {value : Value} {values : List Value}
    (repeated : field.isRepeated = true) (fits : value.Fits schema field.kind)
    (lists : Lists held values)
    : Leaves schema field held (.append tag value) (some (.repeated (values ++ [value])))
  | clear {tag : Nat} : Leaves schema field held (.clear tag) none
  | kept {tag : Nat} {nested : Record} (singular : field.isRepeated = false)
    (hk : field.kind = .message nested.type.name)
    (hs : held = some (.single (.message nested)))
    : Leaves schema field held (.messageAt tag) held
  | made {tag : Nat} {type : MessageType} (singular : field.isRepeated = false)
    (hk : field.kind = .message type.name) (ht : schema.message? type.name = some type)
    (hs : held = none)
    : Leaves schema field held (.messageAt tag)
        (some (.single (.message (.empty schema type))))
  | addMessage {tag : Nat} {type : MessageType} {values : List Value}
    (repeated : field.isRepeated = true) (hk : field.kind = .message type.name)
    (ht : schema.message? type.name = some type) (lists : Lists held values)
    : Leaves schema field held (.addMessage tag)
        (some (.repeated (values ++ [.message (.empty schema type)])))

theorem exists_lists (sound : record.Sound schema) {tag : Nat}
    (hf : record.type.field? tag = some field) (repeated : field.isRepeated = true)
    : ∃ values, Lists (record.slot? tag) values := by
  cases hs : record.slot? tag with
  | none => exact ⟨[], .inl ⟨rfl, rfl⟩⟩
  | some slot =>
      obtain ⟨declared, hd, fits⟩ := sound.slots hs
      obtain rfl := Option.some.inj (hd.symm.trans hf)
      cases fits with
      | single singular _ => simp [repeated] at singular
      | repeated _ _ _ => exact ⟨_, .inr rfl⟩

/-- An accepted call leaves something at its tag, since what is held there suits the field and the
type of a new record is declared.
-/
theorem exists_leaves (built : schema.Built) (sound : record.Sound schema)
    (accepted : call.Accepted schema record.type)
    : ∃ field held,
        record.type.field? call.tag = some field
        ∧ call.Leaves schema field (record.slot? call.tag) held := by
  obtain ⟨field, hf, suits, fits⟩ := accepted
  cases call with
  | set tag value => exact ⟨field, _, hf, .set suits fits⟩
  | append tag value =>
      obtain ⟨values, lists⟩ := exists_lists sound hf suits
      exact ⟨field, _, hf, .append suits fits lists⟩
  | clear tag => exact ⟨field, _, hf, .clear⟩
  | messageAt tag =>
      obtain ⟨name, hk⟩ := fits
      cases hs : record.slot? tag with
      | none =>
          obtain ⟨type, ht⟩ := built.exists_message sound.typed hf hk
          obtain rfl := Schema.name_of_message? ht
          exact ⟨field, _, hf, .made suits hk ht hs⟩
      | some slot =>
          obtain ⟨declared, hd, held⟩ := sound.slots hs
          obtain rfl := Option.some.inj (hd.symm.trans hf)
          cases held with
          | repeated repeated _ _ => exact absurd (suits.symm.trans repeated) Bool.false_ne_true
          | single _ value =>
              obtain ⟨nested, rfl, rfl⟩ := Value.Fits.exists_record (hk ▸ value)
              exact ⟨declared, _, hf, .kept suits hk hs⟩
  | addMessage tag =>
      obtain ⟨name, hk⟩ := fits
      obtain ⟨type, ht⟩ := built.exists_message sound.typed hf hk
      obtain rfl := Schema.name_of_message? ht
      obtain ⟨values, lists⟩ := exists_lists sound hf suits
      exact ⟨field, _, hf, .addMessage suits hk ht lists⟩

/-- A field refuses a value that it may not hold, for what is found. -/
theorem check_of_misfits (ofSchema : record.schema = schema) {value : Value} {found : Found}
    (h : value.Misfits schema field.kind found)
    : record.check field value = .error (record.wrongKind field found) := by
  cases h with
  | kind h => simp [Record.check, h]
  | undeclared ofKind h => simp [Record.check, ofKind, ofSchema, h]

/-- A call that deserves an error is refused with it, and does nothing. -/
theorem run_of_refused (ofSchema : record.schema = schema) {error : RecordError}
    (h : call.Refused schema record.type error)
    : call.run record = (.error error, record) := by
  cases h with
  | undeclared hf =>
      have missing
          : record.fieldAt call.tag = .error (.unknownField record.type.name call.tag) := by
        simp only [Record.fieldAt, hf]
      cases call with
      | messageAt tag => exact Record.actAt_hop_of_error (Record.bind_of_error missing _)
      | set tag value | append tag value | clear tag | addMessage tag =>
          rw [run]
          apply Record.attempt_of_error
          exact Record.bind_of_error missing _
  | @cardinality field advice hf misuses =>
      cases misuses with
      | set repeated =>
          rw [run]
          apply Record.attempt_of_error
          exact Record.access_refused hf repeated _ _
      | messageAt repeated =>
          apply Record.actAt_hop_of_error
          exact Record.access_refused hf repeated _ _
      | append singular | addMessage singular =>
          have refused : (!field.isRepeated) = true := (Bool.not_eq_true' _).mpr singular
          rw [run]
          apply Record.attempt_of_error
          exact Record.access_refused hf refused _ _
  | @kind field found hf suits misfits =>
      cases misfits with
      | set h =>
          have passed : ¬ field.isRepeated = true := Bool.eq_false_iff.mp suits
          rw [run]
          apply Record.attempt_of_error
          exact (Record.access_passed hf passed _ _).trans
            (Record.bind_of_error (check_of_misfits ofSchema h) _)
      | messageAt h =>
          have passed : ¬ field.isRepeated = true := Bool.eq_false_iff.mp suits
          apply Record.actAt_hop_of_error
          exact (Record.access_passed hf passed _ _).trans
            (Record.bind_of_error (Record.messageKind_eq_error h) _)
      | append h =>
          have passed : ¬ (!field.isRepeated) = true := by simpa [SuitsCardinality] using suits
          rw [run]
          apply Record.attempt_of_error
          exact (Record.access_passed hf passed _ _).trans
            (Record.bind_of_error (check_of_misfits ofSchema h) _)
      | addMessage h =>
          have passed : ¬ (!field.isRepeated) = true := by simpa [SuitsCardinality] using suits
          rw [run]
          apply Record.attempt_of_error
          exact (Record.access_passed hf passed _ _).trans
            (Record.bind_of_error (Record.messageKind_eq_error h) _)

/-- A call that leaves something at its tag is accepted, and changes nothing else. -/
theorem run_of_leaves (ofSchema : record.schema = schema)
    (hf : record.type.field? call.tag = some field) {held : Option Slot}
    (h : call.Leaves schema field (record.slot? call.tag) held)
    : call.run record = (.ok (), record.assign call.tag held) := by
  subst ofSchema
  cases h with
  | set singular fits =>
      rw [run]
      apply Record.attempt_of_ok
      exact (Record.access_passed hf (Bool.eq_false_iff.mp singular) _ _).trans
        (Record.bind_of_ok (Record.check_eq_ok rfl fits) _)
  | @append tag value values repeated fits lists =>
      have passed : ¬ (!field.isRepeated) = true := by simpa using repeated
      rw [run]
      apply Record.attempt_of_ok
      refine (Record.access_passed hf passed _ _).trans
        ((Record.bind_of_ok (Record.check_eq_ok rfl fits) _).trans ?_)
      obtain ⟨hs, rfl⟩ | hs := lists
      · simp only [show record.slot? tag = none from hs]
        rfl
      · simp only [show record.slot? tag = some (.repeated values) from hs]
        rfl
  | clear =>
      rw [run]
      apply Record.attempt_of_ok
      exact Record.bind_of_ok (Record.fieldAt_eq_ok hf) _
  | @kept tag nested singular hk hs =>
      rw [hs]
      exact Record.actAt_hop_of_ok (Record.reach_held hf singular hk hs)
  | @made tag type singular hk ht hs =>
      have made := Record.make_eq_ok ht
      exact Record.actAt_hop_of_ok (Record.reach_unset hf singular hk hs made)
  | @addMessage tag type values repeated hk ht lists =>
      have passed : ¬ (!field.isRepeated) = true := by simpa using repeated
      rw [run]
      apply Record.attempt_of_ok
      refine (Record.access_passed hf passed _ _).trans
        ((Record.bind_of_ok (Record.messageKind_eq_ok hk) _).trans
          ((Record.bind_of_ok (Record.make_eq_ok ht) _).trans ?_))
      obtain ⟨hs, rfl⟩ | hs := lists
      · simp only [show record.slot? tag = none from hs]
        rfl
      · simp only [show record.slot? tag = some (.repeated values) from hs]
        rfl

-----------------------------------------------------------------------------------------
-- Calls on records that a program can come by
-----------------------------------------------------------------------------------------

/-- A call is accepted on a record and leaves something at its tag, or it deserves an error. -/
theorem outcome (built : schema.Built) (sound : record.Sound schema) (call : FieldCall)
    : (∃ field held,
        record.type.field? call.tag = some field
        ∧ call.Leaves schema field (record.slot? call.tag) held
        ∧ call.run record = (.ok (), record.assign call.tag held))
      ∨ ∃ error,
          call.Refused schema record.type error
          ∧ call.run record = (.error error, record) := by
  obtain accepted | ⟨error, refused⟩ := call.accepted_or_refused schema record.type
  · obtain ⟨field, held, hf, leaves⟩ := exists_leaves built sound accepted
    exact .inl ⟨field, held, hf, leaves, run_of_leaves sound.ofSchema hf leaves⟩
  · exact .inr ⟨error, refused, run_of_refused sound.ofSchema refused⟩

theorem Leaves.suits {held next : Option Slot} (h : call.Leaves schema field held next)
    : call.SuitsCardinality field ∧ call.SuitsKind schema field := by
  cases h with
  | set singular fits => exact ⟨singular, fits⟩
  | append repeated fits _ => exact ⟨repeated, fits⟩
  | clear => exact ⟨trivial, trivial⟩
  | kept singular hk _ => exact ⟨singular, _, hk⟩
  | made singular hk _ _ => exact ⟨singular, _, hk⟩
  | addMessage repeated hk _ _ => exact ⟨repeated, _, hk⟩

/-- What an accepted call does to the field at its tag. -/
def Effect (record changed : Record) : FieldCall → Prop
  | set tag value => changed.isSet tag = true ∧ changed.get tag = .ok value
  | append tag value =>
      ∃ values,
        record.getRepeated tag = .ok values
        ∧ changed.getRepeated tag = .ok (values ++ [value])
  | clear tag => changed.isSet tag = false
  | messageAt tag =>
      (record.isSet tag = true → changed = record)
      ∧ (record.isSet tag = false
          → ∃ nested,
              record.Fresh tag nested
              ∧ changed.isSet tag = true
              ∧ changed.get tag = .ok (.message nested))
  | addMessage tag =>
      ∃ values nested,
        record.Fresh tag nested
        ∧ record.getRepeated tag = .ok values
        ∧ changed.getRepeated tag = .ok (values ++ [.message nested])

theorem getRepeated_of_lists {tag : Nat} (hf : record.type.field? tag = some field)
    (repeated : field.isRepeated = true) {values : List Value}
    (lists : Lists (record.slot? tag) values)
    : record.getRepeated tag = .ok values := by
  simp [Record.getRepeated, Record.fieldAt_eq_ok hf, repeated, lists.elements, bind, Except.bind,
    pure, Except.pure]

theorem effect_of_leaves (sound : record.Sound schema)
    (hf : record.type.field? call.tag = some field) {held : Option Slot}
    (h : call.Leaves schema field (record.slot? call.tag) held)
    : call.Effect record (record.assign call.tag held) := by
  have hf' : (record.assign call.tag held).type.field? call.tag = some field := by
    simpa using hf
  cases h with
  | set singular fits =>
      exact ⟨by simp [Record.isSet, tag],
        Record.get_of_single hf' singular (Record.slot?_assign_self _ _)⟩
  | append repeated fits lists =>
      exact ⟨_, getRepeated_of_lists hf repeated lists,
        getRepeated_of_lists hf' repeated (.inr (Record.slot?_assign_self _ _))⟩
  | clear => simp [Effect, Record.isSet, tag]
  | kept singular hk hs =>
      refine ⟨fun _ => Record.assign_slot? sound.ascending _, fun unset => ?_⟩
      simp_all [Record.isSet, tag]
  | made singular hk ht hs =>
      refine ⟨fun set => ?_, fun _ => ⟨_, Record.fresh_of_type sound.ofSchema hf hk ht, ?_, ?_⟩⟩
      · simp_all [Record.isSet, tag]
      · simp [Record.isSet, tag]
      · exact Record.get_of_single hf' singular (Record.slot?_assign_self _ _)
  | addMessage repeated hk ht lists =>
      exact ⟨_, _, Record.fresh_of_type sound.ofSchema hf hk ht,
        getRepeated_of_lists hf repeated lists,
        getRepeated_of_lists hf' repeated (.inr (Record.slot?_assign_self _ _))⟩

/-- Whatever stands at another tag, a call has the same answer and leaves the same at its own. -/
theorem run_assign (built : schema.Built) (sound : record.Sound schema) (call : FieldCall)
    {tag : Nat} (different : call.tag ≠ tag)
    : ∃ held,
        call.run record = ((call.run record).1, record.assign call.tag held)
        ∧ ∀ other,
            call.run (record.assign tag other)
            = ((call.run record).1, (record.assign tag other).assign call.tag held) := by
  obtain ⟨field, held, hf, leaves, ran⟩ | ⟨error, refused, ran⟩ := outcome built sound call
  · refine ⟨held, by rw [ran], fun other => ?_⟩
    rw [ran]
    refine run_of_leaves (by simpa using sound.ofSchema) (by simpa using hf) ?_
    rwa [Record.slot?_assign_of_ne different]
  · refine ⟨record.slot? call.tag, ?_, fun other => ?_⟩
    · rw [ran, Record.assign_slot? sound.ascending]
    · rw [ran, ← Record.slot?_assign_of_ne different other,
        Record.assign_slot? (Record.ascending_assign sound.ascending _ _)]
      exact run_of_refused (by simpa using sound.ofSchema) (by simpa using refused)

/-- Two calls may be made in either order: the answers and the record that is left are the same. -/
structure Commute (record : Record) (first second : FieldCall) : Prop where
  firstAnswer : (first.run (second.run record).2).1 = (first.run record).1
  secondAnswer : (second.run (first.run record).2).1 = (second.run record).1
  left : (first.run (second.run record).2).2 = (second.run (first.run record).2).2

theorem commute (built : schema.Built) (sound : record.Sound schema) {first second : FieldCall}
    (different : first.tag ≠ second.tag)
    : Commute record first second := by
  obtain ⟨held, ran, after⟩ := run_assign built sound first different
  obtain ⟨held', ran', after'⟩ := run_assign built sound second different.symm
  refine ⟨?_, ?_, ?_⟩
  · rw [ran', after]
  · rw [ran, after']
  · rw [ran, ran', after, after']
    exact Record.assign_comm sound.ascending different held' held

/-- A call on a record that a program can come by is accepted exactly if its tag is declared, with
the cardinality and the kind that the call asks for, and it is refused with the error that it
deserves. A refused call leaves the record alone, and an accepted one changes its own field, as it
should, and nothing else; so calls for two fields may be made in either order.
-/
theorem run_exact (built : schema.Built) (h : record.Reachable schema) (call : FieldCall)
    : ((call.run record).1 = .ok () ↔ call.Accepted schema record.type)
      ∧ (∀ error,
          (call.run record).1 = .error error
          ↔ call.Refused schema record.type error)
      ∧ (∀ error, (call.run record).1 = .error error → (call.run record).2 = record)
      ∧ ((call.run record).1 = .ok ()
          → record.SameBut call.tag (call.run record).2
            ∧ call.Effect record (call.run record).2)
      ∧ ∀ other : FieldCall, other.tag ≠ call.tag → Commute record call other := by
  have sound := h.conforms.here
  have order (other : FieldCall) (different : other.tag ≠ call.tag) : Commute record call other :=
    commute built sound different.symm
  obtain ⟨field, held, hf, leaves, ran⟩ | ⟨error, refused, ran⟩ := outcome built sound call
  · have accepted : call.Accepted schema record.type := ⟨field, hf, leaves.suits⟩
    rw [ran]
    refine ⟨by simp [accepted], fun error => ⟨nofun, fun refused => ?_⟩, nofun,
      fun _ => ⟨Record.sameBut_assign call.tag held, effect_of_leaves sound hf leaves⟩, order⟩
    have he := run_of_refused sound.ofSchema refused
    simp [ran] at he
  · rw [ran]
    refine ⟨⟨nofun, fun accepted => ?_⟩, fun other => ⟨?_, fun deserved => ?_⟩,
      fun _ _ => rfl, nofun, order⟩
    · obtain ⟨field, held, hf, leaves⟩ := exists_leaves built sound accepted
      have ok := run_of_leaves sound.ofSchema hf leaves
      simp [ran] at ok
    · rintro ⟨⟩
      exact refused
    · have he := run_of_refused sound.ofSchema deserved
      simpa [ran] using he

end Outcomes

end FieldCall

/-- A telephone is added to a person before or after the number of the person is set. To append to
that number is a matter of cardinality first, though a truth value is no number either.
-/
theorem AddressBook.run_exact_owner
    : owner.Reachable schema
      ∧ owner.SameBut 4 ((FieldCall.addMessage 4).run owner).2
      ∧ (FieldCall.addMessage 4).Effect owner ((FieldCall.addMessage 4).run owner).2
      ∧ FieldCall.Commute owner (.addMessage 4) (.set 2 (.scalar (.int32 7)))
      ∧ (FieldCall.append 2 (.scalar (.bool true))).Refused schema person
          (.cardinality person.name "id" .required .set) := by
  obtain ⟨_, _, _, changes, order⟩ :=
    FieldCall.run_exact schema_built reachable_owner (.addMessage 4)
  obtain ⟨_, refused, _⟩ :=
    FieldCall.run_exact schema_built reachable_owner (.append 2 (.scalar (.bool true)))
  obtain ⟨same, effect⟩ := changes rfl
  exact ⟨reachable_owner, same, effect, order _ (by decide), (refused _).mp rfl⟩

end TagWire
