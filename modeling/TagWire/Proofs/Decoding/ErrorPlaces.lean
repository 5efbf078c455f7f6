import TagWire.Proofs.Decoding.Failures
import TagWire.Proofs.Decoding.Refinement

/-!
Errors point at what is wrong. The offset in an error is one that the decoder comes to, through the
windows of the payloads around it, and what it looks for there is not what the bytes hold.
-/

namespace TagWire

-----------------------------------------------------------------------------------------
-- Places in the input
-----------------------------------------------------------------------------------------

/-- The offset that an error carries. Some have to do with no place in the input. -/
def DecodeError.offset? : DecodeError → Option Nat
  | malformed offset _ => some offset
  | invalidTag offset _ => some offset
  | invalidWireKind offset _ _ => some offset
  | wireMismatch _ _ _ _ offset => some offset
  | invalidUtf8 _ _ offset => some offset
  | recursionLimit _ | unknownMessage _ | missingRequired _ _ => none

/-- Bytes start with the number of a key, which carries a tag and the code of a wire kind. -/
def Key.Heads (bytes token : Bytes) (tag code : Nat) : Prop :=
  ∃ rest, Varint.take? bytes = some (token, rest) ∧ Key.split (Varint.value token) = (tag, code)

/-- What the decoder looks for at an offset: the key of a unit of some record, the payload behind a
key, or an element of a packed run.
-/
inductive Place where
  | key (type : MessageType)
  | payload (type : MessageType) (tag : Nat) (wire : WireKind)
  | element (field : Field)

/-- How what is looked for is laid out. -/
def Place.wire : Place → WireKind
  | key _ => .varint
  | payload _ _ wire => wire
  | element field => field.wireKind

/-- Bytes that are to hold a record of a type of some schema. -/
structure Input where
  schema : Schema
  type : MessageType
  bytes : Bytes

namespace Input

/-- The bytes between two offsets. -/
def between (input : Input) (offset stop : Nat) : Bytes := input.bytes.extract offset stop

/-- Where the decoder gets: what it looks for, up to which end, and at which offset. Keys stand
first and behind every payload, and payloads behind their keys; records and packed runs stand in
payloads, whose ends are then theirs.
-/
inductive Reached (input : Input) : Place → (stop offset : Nat) → Prop
  | start : input.Reached (.key input.type) input.bytes.length 0
  | payload {type : MessageType} {stop offset tag code : Nat} {wire : WireKind} {token : Bytes}
    (before : input.Reached (.key type) stop offset)
    (heads : Key.Heads (input.between offset stop) token tag code)
    (legal : ¬ (tag = 0 ∨ maxTag < tag)) (known : WireKind.ofCode? code = some wire)
    : input.Reached (.payload type tag wire) stop (offset + token.length)
  | next {type : MessageType} {stop offset tag : Nat} {wire : WireKind} {payload : Payload}
    {rest : Bytes} (before : input.Reached (.payload type tag wire) stop offset)
    (hp : wire.payload? (input.between offset stop) = some (payload, rest))
    : input.Reached (.key type) stop (offset + payload.bytes.length)
  | nested {type inner : MessageType} {field : Field} {name : String} {stop offset : Nat}
    {payload : Payload} {rest : Bytes}
    (before : input.Reached (.payload type field.tag .lengthDelimited) stop offset)
    (declared : type.field? field.tag = some field) (hk : field.kind = .message name)
    (typed : input.schema.message? name = some inner)
    (hp : WireKind.lengthDelimited.payload? (input.between offset stop) = some (payload, rest))
    : input.Reached (.key inner)
        (offset + payload.bytes.length)
        (offset + payload.length.length)
  | run {type : MessageType} {field : Field} {stop offset : Nat} {payload : Payload} {rest : Bytes}
    (before : input.Reached (.payload type field.tag .lengthDelimited) stop offset)
    (declared : type.field? field.tag = some field) (repeated : field.isRepeated = true)
    (packable : field.kind.isPackable = true)
    (hp : WireKind.lengthDelimited.payload? (input.between offset stop) = some (payload, rest))
    : input.Reached (.element field)
        (offset + payload.bytes.length)
        (offset + payload.length.length)
  | element {field : Field} {stop offset : Nat} {payload : Payload} {rest : Bytes}
    (before : input.Reached (.element field) stop offset)
    (hp : field.wireKind.payload? (input.between offset stop) = some (payload, rest))
    : input.Reached (.element field) stop (offset + payload.bytes.length)

/-- What is wrong at the offset of an error. Where input is malformed, what is looked for does not
stand between the offset and the end of the bytes or of the payload around it; all other errors name
what does stand there.
-/
inductive Explains (input : Input) : (offset : Nat) → DecodeError → Prop
  | malformed {place : Place} {stop offset : Nat} {cause : CursorError}
    (reached : input.Reached place stop offset)
    (refused
      : place.wire.Refused input.bytes.length offset stop (input.between offset stop) cause)
    : input.Explains offset (.malformed offset cause)
  | invalidTag {type : MessageType} {stop offset tag code : Nat} {token : Bytes}
    (reached : input.Reached (.key type) stop offset)
    (heads : Key.Heads (input.between offset stop) token tag code)
    (illegal : tag = 0 ∨ maxTag < tag)
    : input.Explains offset (.invalidTag offset tag)
  | invalidWireKind {type : MessageType} {stop offset tag code : Nat} {token : Bytes}
    (reached : input.Reached (.key type) stop offset)
    (heads : Key.Heads (input.between offset stop) token tag code)
    (legal : ¬ (tag = 0 ∨ maxTag < tag)) (unknown : WireKind.ofCode? code = none)
    : input.Explains offset (.invalidWireKind offset tag code)
  | wireMismatch {type : MessageType} {field : Field} {stop offset code : Nat} {wire : WireKind}
    {token : Bytes} (reached : input.Reached (.key type) stop offset)
    (typed : input.schema.message? type.name = some type)
    (heads : Key.Heads (input.between offset stop) token field.tag code)
    (known : WireKind.ofCode? code = some wire)
    (declared : type.field? field.tag = some field) (differs : field.wireKind ≠ wire)
    : input.Explains offset (.wireMismatch type.name field.tag field.wireKind wire offset)
  | invalidUtf8 {type : MessageType} {field : Field} {stop offset : Nat} {payload : Payload}
    {rest : Bytes} (reached : input.Reached (.payload type field.tag .lengthDelimited) stop offset)
    (typed : input.schema.message? type.name = some type)
    (declared : type.field? field.tag = some field) (hk : field.kind = .string)
    (hp : WireKind.lengthDelimited.payload? (input.between offset stop) = some (payload, rest))
    (invalid : ∀ text, Scalar.utf8 text ≠ payload.content)
    : input.Explains offset (.invalidUtf8 type.name field.tag offset)

/-- An error that carries an offset says what is wrong there. -/
def Truthful (input : Input) (error : DecodeError) : Prop :=
  ∀ offset, error.offset? = some offset → input.Explains offset error

variable {input : Input} {place : Place} {stop offset : Nat} {error : DecodeError}

theorem Explains.truthful (h : input.Explains offset error) : input.Truthful error := by
  intro other ho
  obtain rfl : offset = other := by cases h <;> exact Option.some.inj ho
  exact h

/-- A token that is cut off the bytes between two offsets ends before the second. -/
theorem length_le_of_between {token rest : Bytes} (h : input.between offset stop = token ++ rest)
    (he : offset ≤ stop)
    : offset + token.length ≤ stop := by
  have hlen := congrArg List.length h
  rw [between, List.extract_eq_take_drop, List.length_take, List.length_append] at hlen
  omega

/-- A place does not lie behind its end, nor the end behind the bytes; by induction on how the place
is reached.
-/
theorem Reached.bounds (h : input.Reached place stop offset)
    : offset ≤ stop ∧ stop ≤ input.bytes.length := by
  have inside {wire : WireKind} {payload : Payload} {rest : Bytes} {offset stop : Nat}
      (hp : wire.payload? (input.between offset stop) = some (payload, rest)) (he : offset ≤ stop)
      : offset + payload.bytes.length ≤ stop :=
    length_le_of_between (wire.payload?_cuts.divides hp) he
  induction h with
  | start => exact ⟨Nat.zero_le _, Nat.le_refl _⟩
  | payload _ heads _ _ ih =>
      obtain ⟨rest, ht, _⟩ := heads
      exact ⟨length_le_of_between (Varint.take?_cuts.divides ht) ih.1, ih.2⟩
  | next _ hp ih => exact ⟨inside hp ih.1, ih.2⟩
  | nested _ _ _ _ hp ih | run _ _ _ _ hp ih =>
      have hle := inside hp ih.1
      rw [Payload.bytes, List.length_append] at hle ⊢
      omega
  | element _ hp ih => exact ⟨inside hp ih.1, ih.2⟩

theorem Explains.offset_le (h : input.Explains offset error) : offset ≤ input.bytes.length := by
  cases h with
  | malformed reached _ | invalidTag reached _ _ | invalidWireKind reached _ _ _
  | wireMismatch reached _ _ _ _ _ | invalidUtf8 reached _ _ _ _ _ =>
      exact Nat.le_trans reached.bounds.1 reached.bounds.2

end Input

-----------------------------------------------------------------------------------------
-- Cursors at places
-----------------------------------------------------------------------------------------

/-- A cursor in the bytes of some input stands where the decoder looks for something. -/
structure Cursor.StandsAt (input : Input) (place : Place) (cursor : Cursor) : Prop where
  buffer : cursor.buffer = input.bytes.toArray
  bounded : cursor.Bounded
  reached : input.Reached place cursor.limit cursor.offset

namespace Cursor.StandsAt

open Decoder

variable {input : Input} {place next : Place} {cursor : Cursor} {token rest : Bytes}

theorem view (h : cursor.StandsAt input place)
    : cursor.view = input.between cursor.offset cursor.limit := by
  rw [Cursor.view, Cursor.slice_eq, h.buffer, Input.between, List.extract_eq_take_drop]

/-- What is refused where it is looked for is malformed there. -/
theorem malformed (h : cursor.StandsAt input place) {cause : CursorError}
    (refused : cursor.Refuses place.wire cause)
    : input.Truthful (.malformed cursor.offset cause) := by
  have hsize : cursor.buffer.size = input.bytes.length := by rw [h.buffer, List.size_toArray]
  rw [Cursor.Refuses, hsize, h.view] at refused
  exact (Input.Explains.malformed h.reached refused).truthful

/-- A cursor moves on to what stands behind a token. -/
theorem leave (h : cursor.StandsAt input place) (hv : cursor.view = token ++ rest)
    (reached : input.Reached next cursor.limit (cursor.offset + token.length))
    : (cursor.leave rest).StandsAt input next := by
  refine ⟨h.buffer, h.bounded.leave rest, ?_⟩
  rw [h.bounded.offset_leave hv]
  exact reached

/-- Behind a key stands its payload. -/
theorem afterKey {type : MessageType} (h : cursor.StandsAt input (.key type)) {tag code : Nat}
    {wire : WireKind} (ht : Varint.take? cursor.view = some (token, rest))
    (hs : Key.split (Varint.value token) = (tag, code)) (legal : ¬ (tag = 0 ∨ maxTag < tag))
    (known : WireKind.ofCode? code = some wire)
    : (cursor.leave rest).StandsAt input (.payload type tag wire) :=
  h.leave (Varint.take?_cuts.divides ht) (.payload h.reached ⟨rest, h.view ▸ ht, hs⟩ legal known)

/-- Behind a payload stands the next key. -/
theorem afterPayload {type : MessageType} {tag : Nat} {wire : WireKind}
    (h : cursor.StandsAt input (.payload type tag wire)) {payload : Payload}
    (hp : wire.payload? cursor.view = some (payload, rest))
    : (cursor.leave rest).StandsAt input (.key type) :=
  h.leave (wire.payload?_cuts.divides hp) (.next h.reached (h.view ▸ hp))

/-- Behind an element of a packed run stands the next one. -/
theorem afterElement {field : Field} (h : cursor.StandsAt input (.element field))
    {payload : Payload} (hp : field.wireKind.payload? cursor.view = some (payload, rest))
    : (cursor.leave rest).StandsAt input (.element field) :=
  h.leave (field.wireKind.payload?_cuts.divides hp) (.element h.reached (h.view ▸ hp))

/-- A window on the content of a delimited payload ends where the payload does. -/
theorem within (h : cursor.StandsAt input place) {payload : Payload}
    (hp : WireKind.lengthDelimited.payload? cursor.view = some (payload, rest))
    (reached
      : input.Reached next
          (cursor.offset + payload.bytes.length)
          (cursor.offset + payload.length.length))
    : (within (cursor.leave (payload.content ++ rest)) payload.content).StandsAt input next := by
  have ht := (delimited_payload?_eq_some_iff.mp hp).1
  have hv : cursor.view = payload.length ++ (payload.content ++ rest) :=
    Varint.take?_cuts.divides ht
  refine ⟨h.buffer, bounded_within (h.bounded.leave _) (h.bounded.view_leave hv), ?_⟩
  have hoffset := h.bounded.offset_leave hv
  have hlimit : (Decoder.within (cursor.leave (payload.content ++ rest)) payload.content).limit
      = cursor.offset + payload.bytes.length := by
    show (cursor.leave (payload.content ++ rest)).offset + payload.content.length = _
    rw [hoffset, Payload.bytes, List.length_append, Nat.add_assoc]
  rw [hlimit]
  show input.Reached next _ (cursor.leave (payload.content ++ rest)).offset
  rw [hoffset]
  exact reached

end Cursor.StandsAt

-----------------------------------------------------------------------------------------
-- Steps of the decoder
-----------------------------------------------------------------------------------------

namespace Decoder

variable {input : Input} {type : MessageType} {cursor : Cursor}

/-- A key that is read stands where it is looked for. -/
theorem key_split (hb : cursor.Bounded) {tag : Nat} {wire : WireKind} {moved : Cursor}
    (h : key.outcome? cursor = some ((tag, wire), moved))
    : ∃ token rest code,
        Varint.take? cursor.view = some (token, rest)
        ∧ Key.split (Varint.value token) = (tag, code)
        ∧ ¬ (tag = 0 ∨ maxTag < tag)
        ∧ WireKind.ofCode? code = some wire
        ∧ moved = cursor.leave rest := by
  rw [outcome?_key hb] at h
  obtain ⟨⟨token, rest⟩, ht, h⟩ := Option.bind_eq_some_iff.mp h
  simp only at h
  split at h
  · cases h
  · next legal =>
      obtain ⟨known, hk, he⟩ := Option.map_eq_some_iff.mp h
      obtain ⟨hkey, rfl⟩ := Prod.mk.inj he
      obtain ⟨rfl, rfl⟩ := Prod.mk.inj hkey
      exact ⟨token, rest, _, ht, rfl, legal, hk, rfl⟩

theorem key_truthful (h : cursor.StandsAt input (.key type))
    : key.FailsOnly input.Truthful cursor := by
  apply failsOnly_look_bind
  refine .bind (failsOnly_located (fun cause left he => ?_)) (fun number moved hnumber => ?_)
  · exact h.malformed (.number (Cursor.takeVarint_refused h.bounded he))
  rw [outcome?_located] at hnumber
  obtain ⟨token, rest, ht, rfl, rfl⟩ := Cursor.takeVarint_split h.bounded hnumber
  have heads : Key.Heads (input.between cursor.offset cursor.limit) token
      (Key.split (Varint.value token)).1 (Key.split (Varint.value token)).2 :=
    ⟨rest, h.view ▸ ht, rfl⟩
  dsimp only
  split
  · next illegal =>
      exact (failsOnly_throw (Input.Explains.invalidTag h.reached heads illegal).truthful).bind
        (fun _ _ hthrow => by cases hthrow)
  · next legal =>
      split
      · exact failsOnly_pure _
      · next unknown =>
          exact failsOnly_throw
            (Input.Explains.invalidWireKind h.reached heads legal unknown).truthful

end Decoder

namespace Record

open Decoder Reference

variable {input : Input} {record : Record} {type : MessageType} {field : Field} {cursor : Cursor}

section Payloads

theorem readUnknown_truthful {tag : Nat} {wire : WireKind}
    (h : cursor.StandsAt input (.payload type tag wire)) (start : Nat)
    : (record.readUnknown start tag wire).FailsOnly input.Truthful cursor := by
  refine .bind (failsOnly_here (fun cause left he => ?_)) (fun _ moved _ => ?_)
  · exact h.malformed (Cursor.skip_refused h.bounded he)
  · exact failsOnly_look_bind (failsOnly_pure _)

theorem readScalar_truthful (h : cursor.StandsAt input (.payload type field.tag field.wireKind))
    {reader : Read Scalar} (hr : field.kind.reader? = some reader) (start : Nat)
    : (record.readScalar field start reader).FailsOnly input.Truthful cursor := by
  refine .bind (failsOnly_here (fun cause left he => ?_)) (fun value moved _ => ?_)
  · exact h.malformed (Cursor.reader_refused h.bounded hr he)
  · split
    · exact failsOnly_look_bind (failsOnly_pure _)
    · exact failsOnly_pure _

theorem readBytes_truthful (h : cursor.StandsAt input (.payload type field.tag .lengthDelimited))
    : (record.readBytes field).FailsOnly input.Truthful cursor := by
  refine .bind (failsOnly_here (fun cause left he => ?_)) (fun _ _ _ => failsOnly_pure _)
  exact h.malformed (Cursor.takeDelimited_refused h.bounded he)

theorem readString_truthful (typed : input.schema.message? record.type.name = some record.type)
    (hf : record.type.field? field.tag = some field) (hk : field.kind = .string)
    (h : cursor.StandsAt input (.payload record.type field.tag .lengthDelimited))
    : (record.readString field).FailsOnly input.Truthful cursor := by
  apply failsOnly_look_bind
  refine .bind (failsOnly_here (fun cause left he => ?_)) (fun content moved hread => ?_)
  · exact h.malformed (Cursor.takeDelimited_refused h.bounded he)
  rw [outcome?_here, Cursor.outcome?_takeDelimited h.bounded] at hread
  obtain ⟨⟨payload, rest⟩, hp, he⟩ := Option.map_eq_some_iff.mp hread
  obtain ⟨rfl, rfl⟩ := Prod.mk.inj he
  split
  · exact failsOnly_pure _
  · next invalid =>
      apply failsOnly_throw
      refine (Input.Explains.invalidUtf8 h.reached typed hf hk (h.view ▸ hp) ?_).truthful
      intro text htext
      rw [← htext, Scalar.fromUTF8?_utf8] at invalid
      cases invalid

theorem readElement_truthful (h : cursor.StandsAt input (.element field)) {reader : Read Scalar}
    (hr : field.kind.reader? = some reader)
    : (record.readElement field reader).FailsOnly input.Truthful cursor := by
  apply failsOnly_look_bind
  refine .bind (failsOnly_here (fun cause left he => ?_)) (fun value moved _ => ?_)
  · exact h.malformed (Cursor.reader_refused h.bounded hr he)
  · split
    · exact failsOnly_look_bind (failsOnly_pure _)
    · exact failsOnly_pure _

end Payloads

/-- A packed run is being read into a record, and the cursor stands at an element of it. -/
structure IsRunAt (input : Input) (field : Field) (record : Record) (cursor : Cursor) : Prop where
  ofSchema : record.schema = input.schema
  stands : cursor.StandsAt input (.element field)

/-- An element that is read leaves the cursor at the next one. -/
theorem IsRunAt.readElement (h : IsRunAt input field record cursor)
    (hf : type.field? field.tag = some field) {reader : Read Scalar}
    (hr : field.kind.reader? = some reader) {next : Record} {moved : Cursor}
    (hread : (record.readElement field reader).outcome? cursor = some (next, moved))
    : IsRunAt input field next moved := by
  rw [readElement_takes h.ofSchema hf hr cursor h.stands.bounded] at hread
  obtain ⟨⟨element, rest⟩, hp, hmake⟩ := Option.bind_eq_some_iff.mp hread
  obtain ⟨made, habsorb, he⟩ := Option.map_eq_some_iff.mp hmake
  obtain ⟨rfl, rfl⟩ := Prod.mk.inj he
  obtain ⟨reading, _, rfl⟩ := Option.map_eq_some_iff.mp habsorb
  exact ⟨(overlay_schema _ _).trans h.ofSchema, h.stands.afterElement hp⟩

/-- A packed run fails where one of its elements does. -/
theorem readRun_truthful (hc : record.Conforms input.schema)
    (hf : record.type.field? field.tag = some field) (hpos : field.tag ≠ 0)
    (hmax : field.tag ≤ maxTag) (repeated : field.isRepeated = true)
    (packable : field.kind.isPackable = true) {reader : Read Scalar}
    (hr : field.kind.reader? = some reader)
    (h : cursor.StandsAt input (.payload record.type field.tag .lengthDelimited))
    : (inWindow (toEnd (readElement field reader) record)).FailsOnly input.Truthful cursor := by
  refine failsOnly_inWindow (toEnd_readElement_usesUp hc rfl hf hpos hmax hr) h.bounded
    (fun cause refused => h.malformed refused) (fun payload rest hp => ?_)
  have inside := h.within hp (.run h.reached hf repeated packable (h.view ▸ hp))
  have start : IsRunAt input field record _ := ⟨hc.here.ofSchema, inside⟩
  exact failsOnly_toEnd
    (fun _ _ held => readElement_truthful held.stands hr)
    (fun _ _ _ _ held hread => held.readElement hf hr hread)
    start

section Units

variable {nested : Field → String → Record → Decoder Record}
  {nested? : String → Bytes → Option Record}

/-- A step for nested payloads points at what is wrong. -/
def NestedTruthful (input : Input) (nested : Field → String → Record → Decoder Record) : Prop :=
  ∀ (field : Field) (name : String) (record : Record) (cursor : Cursor),
    record.Conforms input.schema
    → record.type.field? field.tag = some field
    → field.kind = .message name
    → cursor.StandsAt input (.payload record.type field.tag .lengthDelimited)
    → (nested field name record).FailsOnly input.Truthful cursor

/-- The payload of a declared unit of the wire kind of its field is refused, or it is wrong inside.
-/
theorem readOwn_truthful (hn : NestedTruthful input nested) (hc : record.Conforms input.schema)
    (hf : record.type.field? field.tag = some field)
    (h : cursor.StandsAt input (.payload record.type field.tag field.wireKind)) (start : Nat)
    : (record.readKnown nested field field.wireKind start).FailsOnly input.Truthful cursor := by
  cases hk : field.kind
  case message name =>
    have hd : field.wireKind = .lengthDelimited := by rw [Field.wireKind, hk]; rfl
    rw [readKnown_message hk]
    exact hn field name record cursor hc hf hk (hd ▸ h)
  case string =>
    have hd : field.wireKind = .lengthDelimited := by rw [Field.wireKind, hk]; rfl
    rw [readKnown_string hk]
    exact readString_truthful hc.here.typed hf hk (hd ▸ h)
  case bytes =>
    have hd : field.wireKind = .lengthDelimited := by rw [Field.wireKind, hk]; rfl
    rw [readKnown_bytes hk]
    exact readBytes_truthful (hd ▸ h)
  all_goals
    rw [readKnown_reader (by rw [hk]; rfl)]
    exact readScalar_truthful h (by rw [hk]; rfl) start

/-- A declared unit of another wire kind is a packed run, or its key is what is wrong. -/
theorem readOther_truthful (hc : record.Conforms input.schema)
    (hf : record.type.field? field.tag = some field) {wire : WireKind} {code start stop : Nat}
    {token : Bytes} (before : input.Reached (.key record.type) stop start)
    (heads : Key.Heads (input.between start stop) token field.tag code)
    (legal : ¬ (field.tag = 0 ∨ maxTag < field.tag)) (known : WireKind.ofCode? code = some wire)
    (hw : wire ≠ field.wireKind) (h : cursor.StandsAt input (.payload record.type field.tag wire))
    : (record.readKnown nested field wire start).FailsOnly input.Truthful cursor := by
  by_cases hrun : wire = .lengthDelimited ∧ field.isRepeated ∧ field.kind.isPackable
  · obtain ⟨rfl, repeated, packable⟩ := hrun
    have readable := packable
    rw [Kind.isPackable_eq_isSome_reader?] at readable
    obtain ⟨reader, hr⟩ := Option.isSome_iff_exists.mp readable
    have hpos : field.tag ≠ 0 := fun zero => legal (.inl zero)
    have hmax : field.tag ≤ maxTag := Nat.not_lt.mp (fun beyond => legal (.inr beyond))
    rw [readKnown_run hw rfl repeated hr]
    exact readRun_truthful hc hf hpos hmax repeated packable hr h
  · rw [readKnown_refused hw hrun]
    apply failsOnly_throw
    exact (Input.Explains.wireMismatch before hc.here.typed heads known hf hw.symm).truthful

/-- A unit is wrong in its key, or in its payload. -/
theorem readUnit_truthful (hn : NestedTruthful input nested) (hc : record.Conforms input.schema)
    (h : cursor.StandsAt input (.key record.type))
    : (record.readUnit nested).FailsOnly input.Truthful cursor := by
  apply failsOnly_look_bind
  refine (key_truthful h).bind (fun key moved hkey => ?_)
  obtain ⟨tag, wire⟩ := key
  obtain ⟨token, rest, code, ht, hs, legal, known, rfl⟩ := key_split h.bounded hkey
  have behind := h.afterKey ht hs legal known
  dsimp only
  split
  · next field hf =>
      obtain rfl := MessageType.tag_of_field? hf
      by_cases hw : wire = field.wireKind
      · subst hw
        exact readOwn_truthful hn hc hf behind cursor.offset
      · have heads : Key.Heads (input.between cursor.offset cursor.limit) token field.tag code :=
          ⟨rest, h.view ▸ ht, hs⟩
        exact readOther_truthful hc hf h.reached heads legal known hw behind
  · exact readUnknown_truthful behind cursor.offset

/-- A record of a type is being read, and the cursor stands at a key of it. -/
structure IsReadAt (input : Input) (type : MessageType) (record : Record) (cursor : Cursor)
    : Prop where
  conforms : record.Conforms input.schema
  same : record.type = type
  stands : cursor.StandsAt input (.key type)

/-- A unit that is read leaves the cursor at the next key. -/
theorem IsReadAt.readUnit (h : IsReadAt input type record cursor)
    (agrees : Agrees input.schema type nested nested?)
    (sound : Reference.Sound input.schema nested?) {next : Record} {moved : Cursor}
    (hread : (record.readUnit nested).outcome? cursor = some (next, moved))
    : IsReadAt input type next moved := by
  have hb := h.stands.bounded
  rw [readUnit_takes agrees h.conforms h.same cursor hb] at hread
  obtain ⟨⟨unit, rest⟩, hfirst, hmake⟩ := Option.bind_eq_some_iff.mp hread
  obtain ⟨made, habsorb, he⟩ := Option.map_eq_some_iff.mp hmake
  obtain ⟨rfl, rfl⟩ := Prod.mk.inj he
  obtain ⟨after, ht, htag, legal, known, hp⟩ := WireUnit.first?_eq_some_iff.mp hfirst
  have hview : (cursor.leave after).view = after := hb.view_leave (Varint.take?_cuts.divides ht)
  have behind := h.stands.afterKey ht (Prod.ext htag rfl) legal known
  have standing : unit.Standing := WireUnit.first?_cuts.alone hfirst
  obtain ⟨conforms, same⟩ :=
    conforms_of_readUnit? sound standing ⟨h.conforms, h.same⟩ habsorb
  exact ⟨conforms, same, behind.afterPayload (hview.symm ▸ hp)⟩

/-- Units read to the end fail where one of them does. -/
theorem toEnd_readUnit_truthful (hn : NestedTruthful input nested)
    (agrees : Agrees input.schema record.type nested nested?)
    (sound : Reference.Sound input.schema nested?) (hc : record.Conforms input.schema)
    (h : cursor.StandsAt input (.key record.type))
    : (toEnd (readUnit nested) record).FailsOnly input.Truthful cursor := by
  have start : IsReadAt input record.type record cursor := ⟨hc, rfl, h⟩
  exact failsOnly_toEnd
    (fun _ _ held => readUnit_truthful hn held.conforms (held.same.symm ▸ held.stands))
    (fun _ _ _ _ held hread => held.readUnit agrees sound hread)
    start

end Units

-----------------------------------------------------------------------------------------
-- Levels
-----------------------------------------------------------------------------------------

/-- Nested payloads point at what is wrong if the records in them do. -/
theorem readNested_truthful {read? : Record → Bytes → Option Record}
    {inner : Record → Decoder Record}
    (uses : ∀ start : Record, start.Conforms input.schema → (inner start).UsesUp (read? start))
    (truthful
      : ∀ (start : Record) (cursor : Cursor),
          start.Conforms input.schema
          → cursor.StandsAt input (.key start.type)
          → (inner start).FailsOnly input.Truthful cursor)
    : NestedTruthful input (fun field name => readNested field name inner) := by
  intro field name record cursor hc hf hk h
  refine FailsOnly.bind ?_ (fun _ _ _ => failsOnly_pure _)
  cases hm : input.schema.message? name with
  | none =>
      have hfail : (throw (.unknownMessage name) : Decoder Record).UsesUp (fun _ => none) :=
        fun _ _ => rfl
      simp only [make, hc.here.ofSchema, hm]
      exact failsOnly_inWindow hfail h.bounded (fun cause refused => h.malformed refused)
        (fun _ _ _ => failsOnly_throw (fun _ ho => by cases ho))
  | some type =>
      obtain ⟨hstart, hstartType⟩ := nestedStart_conforms hc hf hk hm
      simp only [make, hc.here.ofSchema, hm, hasRoom_of_conforms hc hf hk, if_true]
      refine failsOnly_inWindow (uses _ hstart) h.bounded (fun cause refused => h.malformed refused)
        (fun payload rest hp => truthful _ _ hstart ?_)
      rw [hstartType]
      exact h.within hp (.nested h.reached hf hk hm (h.view ▸ hp))

/-- Records point at what is wrong, by induction on the levels that they may take up. -/
theorem readUnits_truthful (limit levels : Nat) (hc : record.Conforms input.schema)
    (h : cursor.StandsAt input (.key record.type))
    : (record.readUnits limit levels).FailsOnly input.Truthful cursor := by
  induction levels generalizing record cursor with
  | zero =>
      have refuses : NestedTruthful input (fun _ _ _ => throw (.recursionLimit limit)) :=
        fun _ _ _ _ _ _ _ _ => failsOnly_throw (fun _ ho => by cases ho)
      exact toEnd_readUnit_truthful refuses (recursionLimit_agrees limit) (decodeWithin?_sound 0)
        hc h
  | succ levels ih =>
      have uses (start : Record) (hs : start.Conforms input.schema) :=
        readUnits_usesUp limit levels hs
      have nested := readNested_truthful uses (fun start cursor hs stands => ih hs stands)
      exact toEnd_readUnit_truthful nested (readNested_agrees uses)
        (decodeWithin?_sound (levels + 1)) hc h

/-- Where decoding fails with an error that carries an offset, the offset is one of the bytes or
their end, and what is wrong stands there.
-/
theorem decode_error_explained {schema : Schema} {name : String} {bytes : Bytes}
    {options : DecodeOptions} {error : DecodeError} {offset : Nat}
    (h : decode schema name bytes options = .error error) (ho : error.offset? = some offset)
    : offset ≤ bytes.length
      ∧ ∃ type,
          schema.message? name = some type
          ∧ (Input.mk schema type bytes).Explains offset error := by
  cases typed : schema.message? name with
  | none =>
      simp only [decode, typed] at h
      obtain rfl : .unknownMessage name = error := Except.error.inj h
      cases ho
  | some type =>
      have start : (Cursor.ofBytes bytes).StandsAt ⟨schema, type, bytes⟩ (.key type) :=
        ⟨rfl, Cursor.ofBytes_bounded bytes, .start⟩
      have truthful := readUnits_truthful options.recursionLimit options.recursionLimit
        (empty_conforms typed) start
      simp only [decode, typed, readAll] at h
      cases hr : (empty schema type).readUnits options.recursionLimit options.recursionLimit
          (.ofBytes bytes) with
      | error cause =>
          rw [hr] at h
          obtain rfl : cause = error := Except.error.inj h
          have explained := truthful cause hr offset ho
          exact ⟨explained.offset_le, type, rfl, explained⟩
      | ok out =>
          rw [hr] at h
          simp only [Except.map, bind, Except.bind] at h
          split at h
          · obtain rfl := Except.error.inj h
            cases ho
          · cases h

end Record

namespace AddressBook

/-- A book with a person whose telephone is one byte longer than the person. -/
def longTelephone : Bytes := [0x0A, 0x04, 0x22, 0x03, 0x0A, 0x01, 0x35, 0x08, 0x01]

/-- The telephone is refused where its length stands, though the bytes go on. -/
theorem decode_error_explained_telephone
    : Record.decode schema book.name longTelephone {}
        = .error (.malformed 3 (.window (.openPastWindow 2 3)))
      ∧ 3 ≤ longTelephone.length
      ∧ ∃ type,
          schema.message? book.name = some type
          ∧ (Input.mk schema type longTelephone).Explains 3
              (.malformed 3 (.window (.openPastWindow 2 3))) := by
  have refused : Record.decode schema book.name longTelephone {}
      = .error (.malformed 3 (.window (.openPastWindow 2 3))) := by
    rfl
  exact ⟨refused, Record.decode_error_explained refused rfl⟩

end AddressBook

end TagWire
