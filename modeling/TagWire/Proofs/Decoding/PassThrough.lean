import TagWire.Proofs.Decoding.Agreement
import TagWire.Proofs.Decoding.Concatenation
import TagWire.Proofs.Encoding.RoundTrip
import TagWire.Proofs.Schemas.Closure

/-!
Records that pass through an older program. The older schema keeps what it does not declare, sorts
units by tag, merges records and packs lists its own way. What it writes is read under the newer
schema as the record that the newer schema reads from the bytes as they came.
-/

namespace TagWire

namespace Reference

-----------------------------------------------------------------------------------------
-- What a field settles to
-----------------------------------------------------------------------------------------

section Settling

variable {schema : Schema} {field : Field} {values : List Value}

/-- The values that a field holds after values came for it. -/
def settled (field : Field) (values : List Value) : List Value :=
  ((slotOf? field values).map Slot.values).getD []

theorem valuesAt_gather {type : MessageType} {tag : Nat} (hf : type.field? tag = some field)
    (readings : List Reading)
    : (gather schema type readings).valuesAt tag
      = settled field (Reading.valuesAt readings tag) := by
  rw [Record.valuesAt, slot?_gather, hf, Option.bind_some, settled]

/-- Values that a field holds stay as they are if they come for it again. -/
theorem slotOf?_settled (field : Field) (values : List Value)
    : slotOf? field (settled field values) = slotOf? field values := by
  cases values with
  | nil => rfl
  | cons first rest => by_cases hrep : field.isRepeated <;> simp [settled, slotOf?, hrep]

theorem settled_of_isRepeated (hrep : field.isRepeated = true) (values : List Value)
    : settled field values = values := by
  cases values with
  | nil => rfl
  | cons first rest => simp [settled, slotOf?, hrep]

theorem settled_records (hrep : ¬ field.isRepeated = true) (record : Record)
    (records : List Record)
    : settled field ((record :: records).map .message)
      = [.message (records.foldl Record.overlay record)] := by
  simp [settled, slotOf?, hrep, foldl_later_message]

theorem settled_fits (h : ∀ value ∈ values, value.Conforms schema field.kind)
    : ∀ value ∈ settled field values, value.Fits schema field.kind := by
  intro value hv
  unfold settled at hv
  cases hs : slotOf? field values with
  | none => simp [hs] at hv
  | some slot =>
      rw [hs] at hv
      exact ((slotOf?_conforms h hs).value hv).fits

end Settling

-----------------------------------------------------------------------------------------
-- Carrying
-----------------------------------------------------------------------------------------

/-- A newer decoder of records and an older one, for the types of the older schema. Of bytes that
the newer one accepts, the older one makes a record whose own bytes are, for the newer one, the same
record as the bytes were; and both merge what bytes in a row give.
-/
structure Carrying (narrow : Schema) (newer older : String → Bytes → Option Record) : Prop where
  carried
    : ∀ {name type bytes record},
        narrow.message? name = some type
        → newer name bytes = some record
        → ∃ carried,
            older name bytes = some carried
            ∧ (carried.encoding.length < 2 ^ 64 → newer name carried.encoding = some record)
  sound : Sound narrow older
  joinNew : Joining newer
  joinOld : Joining older

section Fields

variable {narrow : Schema} {type nestedType : MessageType}
  {newer older : String → Bytes → Option Record} {field : Field} {target : String}
  (carrying : Carrying narrow newer older) (declared : narrow.message? target = some nestedType)

include carrying declared

theorem reread?_carried {content : Bytes} {record carried : Record}
    (hnew : newer target content = some record) (hold : older target content = some carried)
    (short : carried.encoding.length < 2 ^ 64)
    : reread? newer (.message carried) = some (.message record) := by
  obtain ⟨_, hcarried, hread⟩ := carrying.carried declared hnew
  obtain rfl := Option.some.inj (hcarried.symm.trans hold)
  rw [reread?, (carrying.sound hold).2, hread short, Option.map_some]

theorem reread?_all_carried {contents : List Bytes} {records olds : List Record}
    (hnew : contents.mapM (newer target) = some records)
    (hold : contents.mapM (older target) = some olds)
    (short : ∀ carried ∈ olds, carried.encoding.length < 2 ^ 64)
    : (olds.map Value.message).mapM (reread? newer) = some (records.map .message) := by
  induction contents generalizing records olds with
  | nil =>
      obtain rfl : [] = records := Option.some.inj hnew
      obtain rfl : [] = olds := Option.some.inj hold
      rfl
  | cons content rest ih =>
      obtain ⟨record, others, hrecord, hothers, rfl⟩ := Traversal.mapM_cons_eq_some_iff.mp hnew
      obtain ⟨carried, held, hcarried, hheld, rfl⟩ := Traversal.mapM_cons_eq_some_iff.mp hold
      have hfirst := reread?_carried carrying declared hrecord hcarried
        (short carried (by simp))
      have hrest := ih hothers hheld (fun other ho => short other (by simp [ho]))
      exact Traversal.mapM_cons_eq_some_iff.mpr ⟨_, _, hfirst, hrest, rfl⟩

/-- A field of messages that was read under the older schema is reread as the field that is read
under the newer one: element by element in a repeated field, and in a singular one as the merge that
all contents in a row come to.
-/
theorem exists_rereads_of_records {contents : List Bytes} {records olds : List Record}
    (hnew : contents.mapM (newer target) = some records)
    (hold : contents.mapM (older target) = some olds)
    (short
      : ∀ carried,
          .message carried ∈ settled field (olds.map .message) → carried.encoding.length < 2 ^ 64)
    : ∃ rereads,
        (settled field (olds.map .message)).mapM (reread? newer) = some rereads
        ∧ slotOf? field rereads = slotOf? field (records.map .message) := by
  by_cases hrep : field.isRepeated = true
  · rw [settled_of_isRepeated hrep] at short ⊢
    have hall := reread?_all_carried carrying declared hnew hold
      (fun carried hm => short carried (List.mem_map_of_mem hm))
    exact ⟨_, hall, rfl⟩
  · cases contents with
    | nil =>
        obtain rfl : [] = records := Option.some.inj hnew
        obtain rfl : [] = olds := Option.some.inj hold
        exact ⟨[], rfl, rfl⟩
    | cons content rest =>
        obtain ⟨record, others, hrecord, hothers, rfl⟩ := Traversal.mapM_cons_eq_some_iff.mp hnew
        obtain ⟨carried, held, hcarried, hheld, rfl⟩ := Traversal.mapM_cons_eq_some_iff.mp hold
        rw [settled_records hrep] at short ⊢
        -- The merge is the record of all contents in a row, and as such it is carried.
        have hmerged := reread?_carried carrying declared
          (carrying.joinNew.flatten hrecord hothers) (carrying.joinOld.flatten hcarried hheld)
          (short _ (by simp))
        refine ⟨_, Traversal.mapM_cons_eq_some_iff.mpr ⟨_, [], hmerged, rfl, rfl⟩, ?_⟩
        rw [← settled_records hrep, slotOf?_settled]

end Fields

-----------------------------------------------------------------------------------------
-- Bodies
-----------------------------------------------------------------------------------------

section Bodies

variable {wide narrow : Schema} {wider type : MessageType} {name : String}
  {newer older : String → Bytes → Option Record}

/-- Units under a tag that a type does not declare are written as they came. -/
theorem filter_toUnits_undeclared {units : List WireUnit} (standing : ∀ unit ∈ units, unit.Standing)
    {olds : List Reading} (hold : units.mapM (readUnit? older narrow type) = some olds)
    (hc : (gather narrow type olds).Conforms narrow) {tag : Nat} (hf : type.field? tag = none)
    : (gather narrow type olds).toUnits.filter (fun unit => unit.tag == tag)
      = units.filter (fun unit => unit.tag == tag) := by
  have hforeign : ∀ unit ∈ units.filter (fun unit => unit.tag == tag),
      unit.Foreign narrow type := by
    intro unit hm
    obtain rfl : unit.tag = tag := by simpa using (List.mem_filter.mp hm).2
    exact .inl hf
  have hkept := ((says_filter hold tag).unique (says_foreign hforeign)).2
  rw [hc.filter_toUnits, hc.slot?_eq_none hf, unitsAt_gather, hkept, List.map_map]
  have hwhole : ∀ unit ∈ units.filter (fun unit => unit.tag == tag),
      (RawUnit.whole ∘ WireUnit.raw) unit = id unit :=
    fun unit hm => (standing unit (List.mem_filter.mp hm).1).whole_raw
  exact (List.map_congr_left hwhole).trans (List.map_id _)

variable (carrying : Carrying narrow newer older) (built : narrow.Built)
  (typed : narrow.message? name = some type)

include carrying built typed

/-- A unit of a field that the older schema declares is read under it if it is under the newer. -/
theorem exists_readUnit?_older {unit : WireUnit} {field : Field}
    (hf : type.field? unit.tag = some field) {reading : Reading}
    (h : readUnit? newer narrow type unit = some reading)
    : ∃ held, readUnit? older narrow type unit = some held := by
  cases hm : field.kind.message? with
  | none => exact ⟨reading, by rw [readUnit?_nested hf hm newer, h]⟩
  | some target =>
      have hk := Kind.eq_message_of_message? hm
      obtain ⟨_, declared⟩ := built.exists_message typed hf hk
      obtain ⟨hw, record, hrecord, _⟩ := exists_record_of_readUnit? hf hk h
      obtain ⟨carried, hcarried, _⟩ := carrying.carried declared hrecord
      exact ⟨_, by rw [readUnit?_message hf hw hk, hcarried, Option.map_some]⟩

/-- What the older schema makes of the units of a field is reread as what the newer one makes of
them, and both keep the same units.
-/
theorem exists_rereads {tag : Nat} {field : Field} (hf : type.field? tag = some field)
    {units : List WireUnit} (htag : ∀ unit ∈ units, unit.tag = tag) {values olds : List Value}
    {kept held : List RawUnit}
    (hnew : Says newer narrow type units values kept)
    (hold : Says older narrow type units olds held)
    (fits : ∀ value ∈ olds, value.Conforms narrow field.kind)
    (short
      : ∀ carried, .message carried ∈ settled field olds → carried.encoding.length < 2 ^ 64)
    : held = kept
      ∧ ∃ rereads,
          (settled field olds).mapM (reread? newer) = some rereads
          ∧ slotOf? field rereads = slotOf? field values := by
  cases hm : field.kind.message? with
  | none =>
      -- Without records there is nothing to be carried, and both decoders read alike.
      have hsame : Says newer narrow type units olds held := by
        rcases hold with ⟨readings, hr, hv, hk⟩
        refine ⟨readings, (Traversal.mapM_congr (fun unit hu => ?_)).trans hr, hv, hk⟩
        exact readUnit?_nested ((htag unit hu).symm ▸ hf) hm older
      obtain ⟨rfl, rfl⟩ := hsame.unique hnew
      refine ⟨rfl, settled field olds, Traversal.mapM_eq_some_self (fun value hv => ?_),
        slotOf?_settled field olds⟩
      obtain ⟨scalar, rfl⟩ := exists_scalar_of_fits hm (settled_fits fits value hv)
      rfl
  | some target =>
      have hk := Kind.eq_message_of_message? hm
      obtain ⟨_, declared⟩ := built.exists_message typed hf hk
      obtain ⟨records, hrecords, rfl, rfl⟩ := hnew.records htag hf hk
      obtain ⟨carried, hcarried, rfl, rfl⟩ := hold.records htag hf hk
      exact ⟨rfl, exists_rereads_of_records carrying declared hrecords hcarried short⟩

/-- The units that the older schema writes under a tag that it declares say, under the newer one,
what comes to the same slot as what the units say that it read.
-/
theorem exists_says_declared (ext : wide.Extends narrow) (covers : wider.Covers type)
    {units : List WireUnit} (standing : ∀ unit ∈ units, unit.Standing)
    {readings olds : List Reading}
    (hnew : units.mapM (readUnit? newer wide wider) = some readings)
    (hold : units.mapM (readUnit? older narrow type) = some olds)
    (hlen : (gather narrow type olds).encoding.length < 2 ^ 64) {tag : Nat} {field : Field}
    (hf : type.field? tag = some field)
    : ∃ rereads,
        Says newer wide wider
          ((gather narrow type olds).toUnits.filter (fun unit => unit.tag == tag)) rereads
          (Reading.keptAt readings tag)
        ∧ slotOf? field rereads = slotOf? field (Reading.valuesAt readings tag) := by
  have hfit := readUnits_fit carrying.sound standing hold
  have hc := gather_conforms typed hfit
  have htag (units : List WireUnit)
      : ∀ unit ∈ units.filter (fun unit => unit.tag == tag), unit.tag = tag := by
    intro unit hm
    simpa using (List.mem_filter.mp hm).2
  have widen {units : List WireUnit} {values : List Value} {kept : List RawUnit}
      : Says newer wide wider (units.filter (fun unit => unit.tag == tag)) values kept
        ↔ Says newer narrow type (units.filter (fun unit => unit.tag == tag)) values kept :=
    Says.widen ext typed covers (fun unit hm => ⟨field, htag units unit hm ▸ hf⟩)
  have short : ∀ carried, .message carried ∈ settled field (Reading.valuesAt olds tag)
      → carried.encoding.length < 2 ^ 64 := by
    intro carried hm
    rw [← valuesAt_gather hf olds] at hm
    have hle := hc.length_encoding_le built (Record.holds_of_mem_valuesAt hm)
    omega
  obtain ⟨hkept, rereads, hrereads, hvalues⟩ :=
    exists_rereads carrying built typed hf (htag units)
      (widen.mp (says_filter hnew tag)) (says_filter hold tag) (Reading.Fits.valuesAt hfit hf) short
  rw [← valuesAt_gather hf olds] at hrereads
  have hsays := says_record hc built hlen tag hrereads
  rw [unitsAt_gather, hkept] at hsays
  exact ⟨rereads, widen.mpr hsays, hvalues⟩

/-- If records are carried one level down, they are here. The older schema accepts each unit that
the newer one accepts, and what it writes says the same to the newer one, tag by tag.
-/
theorem decodeBody?_carried (ext : wide.Extends narrow) (covers : wider.Covers type)
    {bytes : Bytes} {record : Record}
    (h : decodeBody? newer wide wider bytes = some record)
    : ∃ carried,
        decodeBody? older narrow type bytes = some carried
        ∧ (carried.encoding.length < 2 ^ 64
          → decodeBody? newer wide wider carried.encoding = some record) := by
  obtain ⟨units, readings, hu, hnew, rfl⟩ := decodeBody?_eq_some_iff.mp h
  have standing := WireUnit.standing_of_units? hu
  have accepted : ∀ unit ∈ units, ∃ held, readUnit? older narrow type unit = some held := by
    intro unit hm
    cases hf : type.field? unit.tag with
    | none => exact ⟨_, readUnit?_undeclared hf⟩
    | some field =>
        obtain ⟨reading, hreading⟩ := Traversal.exists_mapM_of_mem hnew hm
        rw [readUnit?_alike ext typed covers hf] at hreading
        exact exists_readUnit?_older carrying built typed hf hreading
  obtain ⟨olds, hold⟩ := Traversal.exists_mapM_eq_some accepted
  have hc := gather_conforms typed (readUnits_fit carrying.sound standing hold)
  refine ⟨gather narrow type olds, decodeBody?_eq_some_iff.mpr ⟨units, olds, hu, hold, rfl⟩,
    fun hlen => ?_⟩
  refine decodeBody?_eq_some_of_says (hc.units?_encoding built hlen) rfl rfl
    (gather_ascending readings) (gather_unknown_ascending readings) (fun tag => ?_)
    (fun tag units hf => ?_)
  · rw [unitsAt_gather, slot?_gather]
    cases hf : type.field? tag with
    | none =>
        rw [filter_toUnits_undeclared standing hold hc hf]
        exact ⟨_, says_filter hnew tag, rfl⟩
    | some field =>
        obtain ⟨rereads, hsays, hslot⟩ := exists_says_declared carrying built typed ext covers
          standing hnew hold hlen hf
        refine ⟨rereads, hsays, ?_⟩
        obtain ⟨other, hother, same⟩ := covers hf
        rw [hother, Option.bind_some, Option.bind_some, slotOf?_alike same, slotOf?_alike same,
          hslot]
  · rw [find?_unknown_gather] at hf
    exact (entryOf?_eq_some_iff.mp hf).2

end Bodies

/-- Records are carried at any number of levels, by induction on the levels. -/
theorem decodeWithin?_carrying {wide narrow : Schema} (ext : wide.Extends narrow)
    (built : narrow.Built) (levels : Nat)
    : Carrying narrow (decodeWithin? wide levels) (decodeWithin? narrow levels) := by
  refine ⟨?_, decodeWithin?_sound levels, decodeWithin?_joining levels,
    decodeWithin?_joining levels⟩
  induction levels with
  | zero =>
      intro name type bytes record typed h
      simp [decodeWithin?] at h
  | succ levels ih =>
      intro name type bytes record typed h
      obtain ⟨wider, widened, covers⟩ := ext.messages typed
      have carrying : Carrying narrow (decodeWithin? wide levels) (decodeWithin? narrow levels) :=
        ⟨ih, decodeWithin?_sound levels, decodeWithin?_joining levels,
          decodeWithin?_joining levels⟩
      simp only [decodeWithin?, typed, widened, Option.bind_some] at h ⊢
      exact decodeBody?_carried carrying built typed ext covers h

end Reference

/-- What passes through an older program is not lost. Bytes that are decoded under a schema are also
decoded under one that it extends, and the bytes of the record that comes of them are decoded under
the newer schema as the same record as the bytes were at first.
-/
theorem Record.decode_through_older {wide narrow : Schema} (ext : wide.Extends narrow)
    (built : narrow.Built) {name : String} {type : MessageType}
    (typed : narrow.message? name = some type) {limit : Nat} {bytes : Bytes} {record : Record}
    (h : decode wide name bytes ⟨limit, false⟩ = .ok record)
    : ∃ carried,
        decode narrow name bytes ⟨limit, false⟩ = .ok carried
        ∧ (carried.bytes.length < 2 ^ 63
          → decode wide name carried.bytes ⟨limit, false⟩ = .ok record) := by
  obtain ⟨carried, hold, hnew⟩ :=
    (Reference.decodeWithin?_carrying ext built (limit + 1)).carried typed
      (decode_eq_ok_iff.mp h)
  refine ⟨carried, decode_eq_ok_iff.mpr hold, fun hlen => ?_⟩
  rw [carried.bytes_eq_encoding] at hlen ⊢
  exact decode_eq_ok_iff.mpr (hnew (Nat.lt_trans hlen (by decide)))

namespace AddressBook

/-- A telephone of which only the sort is known. -/
def plainPhone : MessageType where
  name := phone.name
  fields := [{ name := "sort", tag := 2, cardinality := .optional, kind := .enum phoneType.name }]

/-- A person of whom only telephones are known. -/
def plainPerson : MessageType where
  name := person.name
  fields :=
    [{ name := "phones", tag := 4, cardinality := .repeated, kind := .message plainPhone.name }]

/-- An older schema of address books. -/
def plainSchema : Schema := ⟨[phoneType], [plainPhone, plainPerson]⟩

theorem plainSchema_built : plainSchema.Built where
  enums type hm := by
    obtain rfl := List.mem_singleton.mp hm
    exact describe_phoneType
  messages := by
    simp only [plainSchema, List.forall_mem_cons, List.not_mem_nil, false_implies, implies_true,
      and_true]
    exact ⟨rfl, rfl⟩
  closed := rfl

theorem schema_extends : schema.Extends plainSchema where
  messages {name type} typed := by
    obtain rfl := Schema.name_of_message? typed
    have hm : type ∈ [plainPhone, plainPerson] := List.mem_of_find?_eq_some typed
    simp only [List.mem_cons, List.not_mem_nil, or_false] at hm
    rcases hm with rfl | rfl
    · exact ⟨phone, rfl, MessageType.covers_of_fields
        (List.forall_mem_singleton.mpr ⟨_, rfl, rfl, rfl, rfl, rfl⟩)⟩
    · exact ⟨person, rfl, MessageType.covers_of_fields
        (List.forall_mem_singleton.mpr ⟨_, rfl, rfl, rfl, rfl, rfl⟩)⟩
  enums _ _ _ := rfl

/-- A person with a telephone of a sort that is not declared. -/
def caller : Record :=
  ⟨schema, person,
    [(4, .repeated
      [.message ⟨schema, phone, [(1, .single (.scalar (.string "")))],
        [(2, [⟨2, .varint, [0x10, 0x09]⟩])]⟩])], []⟩

/-- The same person for the older schema, which keeps the number of the telephone as a unit, too. -/
def plainCaller : Record :=
  ⟨plainSchema, plainPerson,
    [(4, .repeated
      [.message ⟨plainSchema, plainPhone, [],
        [(1, [⟨1, .lengthDelimited, [0x0A, 0x00]⟩]), (2, [⟨2, .varint, [0x10, 0x09]⟩])]⟩])], []⟩

/-- The person passes through the older schema, with the sort before the number at first. -/
theorem decode_through_older_person
    : Record.decode schema person.name [0x22, 0x04, 0x10, 0x09, 0x0A, 0x00] ⟨1, false⟩
        = .ok caller
      ∧ Record.decode plainSchema person.name [0x22, 0x04, 0x10, 0x09, 0x0A, 0x00] ⟨1, false⟩
        = .ok plainCaller
      ∧ Record.decode schema person.name plainCaller.bytes ⟨1, false⟩ = .ok caller := by
  have typed : plainSchema.message? person.name = some plainPerson := rfl
  have wide : Record.decode schema person.name [0x22, 0x04, 0x10, 0x09, 0x0A, 0x00] ⟨1, false⟩
      = .ok caller :=
    rfl
  have narrow
      : Record.decode plainSchema person.name [0x22, 0x04, 0x10, 0x09, 0x0A, 0x00] ⟨1, false⟩
        = .ok plainCaller :=
    rfl
  obtain ⟨carried, hcarried, hread⟩ :=
    Record.decode_through_older schema_extends plainSchema_built typed wide
  obtain rfl := Except.ok.inj (narrow.symm.trans hcarried)
  exact ⟨wide, narrow, hread (by decide +kernel)⟩

end AddressBook

end TagWire
