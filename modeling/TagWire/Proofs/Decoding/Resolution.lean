import TagWire.Proofs.Records.Reachability
import TagWire.Proofs.Schemas.Closure

/-!
Decoding finds every message type that it needs. A nested record is made of the type that its field
names, which a built schema has, and is put where the field has room for it; so no bytes lead to the
errors for a type that is not there.
-/

namespace TagWire

namespace Decoder

variable {α β : Type} {good : α → Prop} {fine : β → Prop}

/-- A step gives good values only, and never fails for want of a message type. -/
structure Resolves (step : Decoder α) (good : α → Prop) : Prop where
  gives : ∀ {cursor value after}, step cursor = .ok (value, after) → good value
  finds : ∀ {cursor name}, step cursor ≠ .error (.unknownMessage name)

theorem resolves_pure {value : α} (h : good value) : Resolves (pure value) good := by
  refine ⟨fun he => ?_, fun he => by cases he⟩
  obtain ⟨rfl, _⟩ := Prod.mk.inj (Except.ok.inj he)
  exact h

theorem resolves_throw {error : DecodeError} (h : ∀ name, error ≠ .unknownMessage name)
    : Resolves (throw error : Decoder α) good := by
  refine ⟨fun {cursor value after} he => ?_, fun he => h _ (Except.error.inj he)⟩
  have failed : (.error error : Except DecodeError (α × Cursor)) = .ok (value, after) := he
  cases failed

theorem Resolves.bind {step : Decoder α} {next : α → Decoder β} (h : step.Resolves good)
    (hn : ∀ value, good value → (next value).Resolves fine)
    : (step >>= next).Resolves fine := by
  refine ⟨fun {cursor value after} he => ?_, fun {cursor name} he => ?_⟩
  · simp only [Bind.bind, StateT.bind] at he
    cases hs : step cursor with
    | error cause => simp [hs, Except.bind] at he
    | ok out =>
        rw [hs] at he
        exact (hn out.1 (h.gives hs)).gives he
  · simp only [Bind.bind, StateT.bind] at he
    cases hs : step cursor with
    | error cause =>
        rw [hs] at he
        exact h.finds (hs.trans (congrArg _ (Except.error.inj he)))
    | ok out =>
        rw [hs] at he
        exact (hn out.1 (h.gives hs)).finds he

theorem resolves_look (view : Cursor → α) : (look view).Resolves (fun _ => True) :=
  ⟨fun _ => trivial, fun he => by cases he⟩

/-- A read that fails is reported as malformed input. -/
theorem resolves_located (offset : Nat) (read : Read α)
    : (located offset read).Resolves (fun _ => True) := by
  refine ⟨fun _ => trivial, fun {cursor name} he => ?_⟩
  rw [located] at he
  split at he
  · cases he
  · cases he

theorem resolves_here (read : Read α) : (here read).Resolves (fun _ => True) :=
  (resolves_look _).bind (fun offset _ => resolves_located offset read)

theorem resolves_key : key.Resolves (fun _ => True) := by
  refine (resolves_look _).bind (fun offset _ => (resolves_located _ _).bind (fun key _ => ?_))
  dsimp only
  split
  · exact (resolves_throw (fun _ => by simp)).bind (fun _ (h : False) => h.elim)
  · split
    · exact resolves_pure trivial
    · exact resolves_throw (fun _ => by simp)

theorem Resolves.inWindow {body : Decoder α} (h : body.Resolves good)
    : (inWindow body).Resolves good :=
  (resolves_look _).bind (fun _ _ => (resolves_located _ _).bind (fun _ _ =>
    (resolves_located _ _).bind (fun _ _ => h.bind (fun _ hv =>
      (resolves_here _).bind (fun _ _ => resolves_pure hv)))))

section Loop

variable {step : α → Decoder α} (h : ∀ value, good value → (step value).Resolves good)

include h

/-- A step that keeps values good may be repeated, by induction on the steps that are allowed. -/
theorem resolves_repeatFor (fuel : Nat) {value : α} (hv : good value)
    : (repeatFor step fuel value).Resolves good := by
  induction fuel generalizing value with
  | zero => exact resolves_pure hv
  | succ fuel ih =>
      refine (resolves_look _).bind (fun remaining _ => ?_)
      split
      · exact resolves_pure hv
      · exact (h value hv).bind (fun _ hn => ih hn)

theorem resolves_toEnd {value : α} (hv : good value) : (toEnd step value).Resolves good :=
  (resolves_look _).bind (fun remaining _ => resolves_repeatFor h remaining hv)

end Loop

end Decoder

-----------------------------------------------------------------------------------------
-- Records that are being read
-----------------------------------------------------------------------------------------

/-- A record is of a schema, and its message fields have room for nested records; and so for every
record nested in it.
-/
inductive Record.Ready (schema : Schema) : Record → Prop
  | intro {record : Record} (ofSchema : record.schema = schema)
    (typed : schema.message? record.type.name = some record.type)
    (room
      : ∀ {tag field name},
          record.type.field? tag = some field
          → field.kind = .message name
          → record.hasRoom field = true)
    (below : ∀ nested, record.Holds nested → nested.Ready schema)
    : record.Ready schema

namespace Record

open Decoder

variable {schema : Schema} {record : Record} {field : Field}

/-- What comes of a record is ready and of the same type. -/
def StaysReady (schema : Schema) (record next : Record) : Prop :=
  next.Ready schema ∧ next.type = record.type

namespace Ready

theorem ofSchema (h : record.Ready schema) : record.schema = schema := by
  cases h with
  | intro ofSchema _ _ _ => exact ofSchema

theorem typed (h : record.Ready schema)
    : schema.message? record.type.name = some record.type := by
  cases h with
  | intro _ typed _ _ => exact typed

theorem room (h : record.Ready schema) {tag : Nat} (hf : record.type.field? tag = some field)
    {name : String} (hk : field.kind = .message name)
    : record.hasRoom field = true := by
  cases h with
  | intro _ _ room _ => exact room hf hk

theorem inner (h : record.Ready schema) {nested : Record} (hn : record.Holds nested)
    : nested.Ready schema := by
  cases h with
  | intro _ _ _ below => exact below nested hn

theorem refl (h : record.Ready schema) : record.StaysReady schema record := ⟨h, rfl⟩

theorem empty {type : MessageType} {name : String} (h : schema.message? name = some type)
    : (Record.empty schema type).Ready schema := by
  refine .intro rfl (by rw [empty_type, Schema.name_of_message? h, h]) (fun _ _ => rfl) ?_
  rintro nested ⟨entry, he, _⟩
  simp [Record.empty] at he

theorem keep (h : record.Ready schema) (unit : RawUnit)
    : record.StaysReady schema (record.keep unit) :=
  ⟨.intro h.ofSchema h.typed (fun {_ _ _} hf hk => h.room hf hk) (fun _ hn => h.inner hn), rfl⟩

/-- A slot of a field's shape leaves the room that there is, and takes up what it is given. -/
theorem putSlot (h : record.Ready schema) (hf : record.type.field? field.tag = some field)
    {slot : Slot}
    (room
      : ∀ name, field.kind = .message name → (record.putSlot field.tag slot).hasRoom field = true)
    (below : ∀ nested, .message nested ∈ slot.values → nested.Ready schema)
    : record.StaysReady schema (record.putSlot field.tag slot) := by
  refine ⟨.intro h.ofSchema h.typed (fun {tag other name} ho hk => ?_) ?_, rfl⟩
  · by_cases same : field.tag = other.tag
    · have htag := MessageType.tag_of_field? ho
      obtain rfl : field = other := by
        rw [← htag, ← same] at ho
        exact Option.some.inj (hf.symm.trans ho)
      exact room name hk
    · rw [hasRoom, slot?_putSlot, if_neg same]
      exact h.room ho hk
  · rintro nested ⟨entry, hentry, hm⟩
    rcases TagMap.mem_insert hentry with rfl | hentry
    · exact below nested hm
    · exact h.inner ⟨entry, hentry, hm⟩

/-- A value that is stored leaves room for records if it is one, or the field takes none. -/
theorem store (h : record.Ready schema) (hf : record.type.field? field.tag = some field)
    {value : Value}
    (sort : (∃ nested, value = .message nested) ∨ field.kind.message? = none)
    (below : ∀ nested, value = .message nested → nested.Ready schema)
    : record.StaysReady schema (record.store field value) := by
  rw [Record.store]
  split
  · next hrep =>
      refine h.putSlot hf (fun _ _ => ?_) (fun nested hm => ?_)
      · simp only [hasRoom, slot?_putSlot, if_true, hrep]
      · rcases List.mem_append.mp hm with hm | hm
        · rw [elements] at hm
          split at hm
          · next values hs => exact h.inner (holds_of_slot? hs hm)
          · simp at hm
        · exact below nested (List.mem_singleton.mp hm).symm
  · next hrep =>
      refine h.putSlot hf (fun name hk => ?_) (fun nested hm =>
        below nested (List.mem_singleton.mp hm).symm)
      rcases sort with ⟨nested, rfl⟩ | hnone
      · simp only [hasRoom, slot?_putSlot, if_true, hrep, Bool.not_false]
      · simp [hk, Kind.message?] at hnone

/-- A nested payload is read into a record that is ready. -/
theorem nestedStart (h : record.Ready schema) {fresh : Record} (hfresh : fresh.Ready schema)
    : (record.nestedStart field fresh).Ready schema := by
  rw [Record.nestedStart]
  split
  · next nested hs =>
      split
      · exact hfresh
      · exact h.inner (holds_of_slot? hs (List.mem_singleton_self _))
  · exact hfresh

end Ready

-----------------------------------------------------------------------------------------
-- Steps of the decoder
-----------------------------------------------------------------------------------------

section Steps

variable (h : record.Ready schema)

include h

/-- Steps that each leave records ready do so when they are repeated. -/
theorem toEnd_resolves {step : Record → Decoder Record}
    (hstep
      : ∀ value,
          record.StaysReady schema value → (step value).Resolves (value.StaysReady schema))
    : (toEnd step record).Resolves (record.StaysReady schema) := by
  refine resolves_toEnd (fun value hv => ?_) h.refl
  have hread := hstep value hv
  exact ⟨fun he => ⟨(hread.gives he).1, (hread.gives he).2.trans hv.2⟩, hread.finds⟩

theorem readUnknown_resolves (start tag : Nat) (wire : WireKind)
    : (record.readUnknown start tag wire).Resolves (record.StaysReady schema) :=
  (resolves_here _).bind (fun _ _ => (resolves_look _).bind (fun _ _ => resolves_pure (h.keep _)))

section Declared

variable (hf : record.type.field? field.tag = some field)

include hf

theorem readScalar_resolves (hm : field.kind.message? = none) (start : Nat) (reader : Read Scalar)
    : (record.readScalar field start reader).Resolves (record.StaysReady schema) := by
  refine (resolves_here _).bind (fun value _ => ?_)
  split
  · exact (resolves_look _).bind (fun _ _ => resolves_pure (h.keep _))
  · exact resolves_pure (h.store hf (.inr hm) (fun _ he => by cases he))

theorem readElement_resolves (hm : field.kind.message? = none) (reader : Read Scalar)
    : (record.readElement field reader).Resolves (record.StaysReady schema) := by
  refine (resolves_look _).bind (fun offset _ => (resolves_here _).bind (fun value _ => ?_))
  split
  · exact (resolves_look _).bind (fun _ _ => resolves_pure (h.keep _))
  · exact resolves_pure (h.store hf (.inr hm) (fun _ he => by cases he))

theorem readString_resolves (hm : field.kind.message? = none)
    : (record.readString field).Resolves (record.StaysReady schema) := by
  refine (resolves_look _).bind (fun offset _ => (resolves_here _).bind (fun content _ => ?_))
  split
  · exact resolves_pure (h.store hf (.inr hm) (fun _ he => by cases he))
  · exact resolves_throw (fun _ => by simp)

theorem readBytes_resolves (hm : field.kind.message? = none)
    : (record.readBytes field).Resolves (record.StaysReady schema) :=
  (resolves_here _).bind (fun _ _ =>
    resolves_pure (h.store hf (.inr hm) (fun _ he => by cases he)))

/-- The elements of a run are read one by one, and the type of the record stays what it is. -/
theorem readRun_resolves (hm : field.kind.message? = none) (reader : Read Scalar)
    : (inWindow (toEnd (readElement field reader) record)).Resolves (record.StaysReady schema) := by
  apply Resolves.inWindow
  apply toEnd_resolves h
  intro value hv
  exact readElement_resolves hv.1 (hv.2 ▸ hf) hm reader

/-- A record of the type that a field names is read if records of that type are. -/
theorem readNested_resolves (built : schema.Built) {name : String}
    (hk : field.kind = .message name) {inner : Record → Decoder Record}
    (hinner
      : ∀ start : Record, start.Ready schema → (inner start).Resolves (start.StaysReady schema))
    : (record.readNested field name inner).Resolves (record.StaysReady schema) := by
  obtain ⟨type, ht⟩ := built.exists_message h.typed hf hk
  have made : make record.schema name = .ok (.empty schema type) := by
    rw [make, h.ofSchema, ht]
  have nested : (inner (record.nestedStart field (.empty schema type))).Resolves
      (fun next => next.Ready schema) := by
    have ready : (record.nestedStart field (.empty schema type)).Ready schema :=
      h.nestedStart (.empty ht)
    have hread := hinner _ ready
    exact ⟨fun he => (hread.gives he).1, hread.finds⟩
  rw [readNested]
  simp only [made, h.room hf hk, if_true]
  exact nested.inWindow.bind (fun next hnext =>
    resolves_pure (h.store hf (.inl ⟨next, rfl⟩) (fun _ he => Value.message.inj he ▸ hnext)))

end Declared

end Steps

/-- A step for nested records finds their types and leaves records ready. -/
def NestedResolves (schema : Schema) (nested : Field → String → Record → Decoder Record) : Prop :=
  ∀ (field : Field) (name : String) (record : Record),
    record.Ready schema
    → record.type.field? field.tag = some field
    → field.kind = .message name
    → (nested field name record).Resolves (record.StaysReady schema)

variable {nested : Field → String → Record → Decoder Record}

theorem readKnown_resolves (hn : NestedResolves schema nested) (h : record.Ready schema)
    (hf : record.type.field? field.tag = some field) (wire : WireKind) (start : Nat)
    : (record.readKnown nested field wire start).Resolves (record.StaysReady schema) := by
  have scalar {reader : Read Scalar} (hr : field.kind.reader? = some reader)
      : field.kind.message? = none := by
    cases hk : field.kind <;> first | rfl | simp [hk, Kind.reader?] at hr
  unfold readKnown
  split
  · split
    · next hr => exact readScalar_resolves h hf (scalar hr) start _
    · next hk => exact hn field _ record h hf hk
    · next hk => exact readString_resolves h hf (by rw [hk]; rfl)
    · next hr hmessage _ =>
        refine readBytes_resolves h hf ?_
        cases hk : field.kind with
        | message name => exact absurd hk (hmessage name)
        | _ => rfl
  · split
    · exact readRun_resolves h hf (scalar ‹field.kind.reader? = some _›) _
    · exact resolves_throw (fun _ => by simp)

theorem readUnit_resolves (hn : NestedResolves schema nested) (h : record.Ready schema)
    : (record.readUnit nested).Resolves (record.StaysReady schema) := by
  refine (resolves_look _).bind (fun start _ => resolves_key.bind (fun key _ => ?_))
  dsimp only
  split
  · next field hf =>
      have htag := MessageType.tag_of_field? hf
      exact readKnown_resolves hn h (htag ▸ hf) key.2 start
  · exact readUnknown_resolves h start key.1 key.2

theorem toEnd_readUnit_resolves (hn : NestedResolves schema nested) (h : record.Ready schema)
    : (toEnd (readUnit nested) record).Resolves (record.StaysReady schema) :=
  toEnd_resolves h (fun _ hv => readUnit_resolves hn hv.1)

/-- Records are read without want of a type, by induction on the levels that they may take up. -/
theorem readUnits_resolves (built : schema.Built) (limit levels : Nat) (h : record.Ready schema)
    : (record.readUnits limit levels).Resolves (record.StaysReady schema) := by
  induction levels generalizing record with
  | zero =>
      exact toEnd_readUnit_resolves (fun _ _ _ _ _ _ => resolves_throw (fun _ => by simp)) h
  | succ levels ih =>
      refine toEnd_readUnit_resolves (fun field name record hr hf hk => ?_) h
      exact readNested_resolves hr hf built hk (fun start hs => ih hs)

/-- Decoding a declared type never fails for want of a message type, whatever the bytes, the limit
and the demand for required fields.
-/
theorem decode_ne_unknownMessage (built : schema.Built) {name : String} {type : MessageType}
    (typed : schema.message? name = some type) (bytes : Bytes) (options : DecodeOptions)
    (missing : String)
    : decode schema name bytes options ≠ .error (.unknownMessage missing) := by
  have hread := readUnits_resolves built options.recursionLimit options.recursionLimit
    (Ready.empty typed)
  have hall : (empty schema type).readAll bytes options.recursionLimit
      ≠ .error (.unknownMessage missing) := by
    rw [readAll]
    cases hr : (empty schema type).readUnits options.recursionLimit options.recursionLimit
        (.ofBytes bytes) with
    | error cause => exact fun he => hread.finds (hr.trans (congrArg _ (Except.error.inj he)))
    | ok out => exact fun he => by cases he
  simp only [decode, typed]
  cases hr : (empty schema type).readAll bytes options.recursionLimit with
  | error cause => exact fun he => hall (hr.trans (congrArg _ (Except.error.inj he)))
  | ok record =>
      intro he
      simp only [bind, Except.bind] at he
      split at he
      · simp [throw, throwThe, MonadExceptOf.throw] at he
      · cases he

end Record

end TagWire
