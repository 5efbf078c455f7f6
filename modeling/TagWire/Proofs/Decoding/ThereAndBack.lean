import TagWire.Proofs.Decoding.Depths
import TagWire.Proofs.Decoding.Renumbering
import TagWire.Proofs.Decoding.Repacking

/-!
A record that is read under an older schema, written, and read under its own again. Nothing is lost,
but in a list of numbers those that the older schema does not declare come last: they were kept as
units, and units that are kept are written after the elements of their field.
-/

namespace TagWire

/-- Whether a value is a number that a schema does not declare. -/
def Value.isUndeclared (schema : Schema) (kind : Kind) : Value → Bool
  | .scalar value => schema.isUndeclared kind value
  | .message _ => false

/-- The values that a schema declares before those that it does not, each in their order. -/
def knownBefore (schema : Schema) (kind : Kind) (values : List Value) : List Value :=
  values.filter (fun value => !value.isUndeclared schema kind)
    ++ values.filter (Value.isUndeclared schema kind)

mutual

/-- A value with the numbers that an older schema declares first in the lists of its records. -/
def Value.knownFirst (older : Schema) : Value → Value
  | .scalar value => .scalar value
  | .message record => .message (record.knownFirst older)

/-- Values with the numbers that an older schema declares first in the lists of their records. -/
def knownFirstValues (older : Schema) : List Value → List Value
  | [] => []
  | value :: rest => value.knownFirst older :: knownFirstValues older rest

/-- A slot with the numbers that an older schema declares first. -/
def Slot.knownFirst (older : Schema) (kind : Kind) : Slot → Slot
  | .single value => .single (value.knownFirst older)
  | .repeated values => .repeated (knownBefore older kind (knownFirstValues older values))

/-- Slots with the numbers that an older schema declares first. -/
def knownFirstSlots (older : Schema) (type : MessageType) : List (Nat × Slot) → List (Nat × Slot)
  | [] => []
  | (tag, slot) :: rest =>
      (tag,
          match type.field? tag with
          | some field => slot.knownFirst older field.kind
          | none => slot)
        :: knownFirstSlots older type rest

/-- A record with the numbers that an older schema declares first in each of its lists, and in those
of all records nested in it. Nothing else is changed.
-/
def Record.knownFirst (older : Schema) : Record → Record
  | ⟨schema, type, slots, unknown⟩ => ⟨schema, type, knownFirstSlots older type slots, unknown⟩

end

section Order

variable {older : Schema} {kind : Kind}

theorem knownBefore_perm (values : List Value)
    : (knownBefore older kind values).Perm values := by
  have hsplit := List.filter_append_perm (Value.isUndeclared older kind) values
  exact List.perm_append_comm.trans hsplit

theorem knownFirstValues_eq_map (values : List Value)
    : knownFirstValues older values = values.map (Value.knownFirst older) := by
  induction values with
  | nil => rw [knownFirstValues, List.map_nil]
  | cons value rest ih => rw [knownFirstValues, ih, List.map_cons]

theorem Value.isUndeclared_knownFirst (value : Value)
    : (value.knownFirst older).isUndeclared older kind = value.isUndeclared older kind := by
  cases value <;> simp only [Value.knownFirst, isUndeclared]

end Order

namespace Record

variable {older : Schema} {record : Record}

@[simp] theorem knownFirst_schema : (record.knownFirst older).schema = record.schema := by
  cases record
  rw [knownFirst]

@[simp] theorem knownFirst_type : (record.knownFirst older).type = record.type := by
  cases record
  rw [knownFirst]

@[simp] theorem knownFirst_unknown : (record.knownFirst older).unknown = record.unknown := by
  cases record
  rw [knownFirst]

end Record

section Slots

variable {older : Schema} {type : MessageType}

theorem tags_knownFirstSlots (slots : List (Nat × Slot))
    : (knownFirstSlots older type slots).map Prod.fst = slots.map Prod.fst := by
  induction slots with
  | nil => rw [knownFirstSlots]
  | cons entry rest ih => rw [knownFirstSlots, List.map_cons, List.map_cons, ih]

theorem find?_knownFirstSlots (slots : List (Nat × Slot)) (tag : Nat)
    : TagMap.find? (knownFirstSlots older type slots) tag
      = (TagMap.find? slots tag).map (fun slot =>
          match type.field? tag with
          | some field => slot.knownFirst older field.kind
          | none => slot) := by
  induction slots with
  | nil => simp [knownFirstSlots, TagMap.find?]
  | cons entry rest ih =>
      rcases entry with ⟨head, slot⟩
      simp only [knownFirstSlots, TagMap.find?]
      split
      · next he =>
          subst he
          rfl
      · exact ih

end Slots

namespace Record

variable {older : Schema} {record : Record}

theorem slot?_knownFirst {tag : Nat} {field : Field} (hf : record.type.field? tag = some field)
    : (record.knownFirst older).slot? tag
      = (record.slot? tag).map (Slot.knownFirst older field.kind) := by
  cases record
  rw [knownFirst, slot?, find?_knownFirstSlots, hf]
  rfl

theorem slot?_knownFirst_undeclared {tag : Nat} (hf : record.type.field? tag = none)
    : (record.knownFirst older).slot? tag = record.slot? tag := by
  cases record
  rw [knownFirst, slot?, find?_knownFirstSlots, hf]
  exact Option.map_id'

theorem ascending_knownFirst (h : TagMap.Ascending record.slots)
    : TagMap.Ascending (record.knownFirst older).slots := by
  cases record
  rw [knownFirst, TagMap.Ascending, tags_knownFirstSlots]
  exact h

end Record

/-- Values of a field with the numbers first that an older schema declares make up such a slot. -/
theorem Slot.Conforms.slotOf?_knownBefore {schema older : Schema} {field : Field} {slot : Slot}
    (h : slot.Conforms schema field)
    : Reference.slotOf? field (knownBefore older field.kind (knownFirstValues older slot.values))
      = some (slot.knownFirst older field.kind) := by
  cases slot with
  | single value =>
      have alone : knownBefore older field.kind (knownFirstValues older [value])
          = [value.knownFirst older] := by
        rw [knownBefore, knownFirstValues_eq_map]
        cases hu : value.isUndeclared older field.kind <;>
          simp [Value.isUndeclared_knownFirst, hu]
      rw [values_single, alone, Reference.slotOf?, h.singular]
      rfl
  | repeated values =>
      obtain ⟨hrep, hne⟩ := h.isRepeated
      have nonempty : knownBefore older field.kind (knownFirstValues older values) ≠ [] := by
        intro hnil
        have hlen : (knownBefore older field.kind (knownFirstValues older values)).length = _ :=
          (knownBefore_perm _).length_eq
        rw [hnil, knownFirstValues_eq_map, List.length_map] at hlen
        exact hne (List.length_eq_zero_iff.mp hlen.symm)
      obtain ⟨first, rest, he⟩ := List.exists_cons_of_ne_nil nonempty
      rw [values_repeated, he, Reference.slotOf?, if_pos hrep, ← he, Slot.knownFirst]

-----------------------------------------------------------------------------------------
-- One value, there and back
-----------------------------------------------------------------------------------------

section OneValue

variable {narrow wide : Schema} {type : MessageType} {field : Field}

/-- A unit that one schema has no place for has none under another that declares no more. -/
theorem RawUnit.Keepable.valueIn?_eq_none {there : Schema} {unit : RawUnit}
    (fewer
      : ∀ {kind value}, wide.isUndeclared kind value = true → there.isUndeclared kind value = true)
    (h : unit.Keepable wide type)
    : unit.valueIn? there type = none := by
  obtain ⟨_, hraw, hforeign⟩ := h.whole
  have htag : unit.whole.tag = unit.tag := congrArg RawUnit.tag hraw
  rcases hforeign with hf | ⟨field, value, hf, _, hv, hu⟩
  · rw [valueIn?, ← htag, hf, Option.bind_none]
  · rw [valueIn?, ← htag, hf, Option.bind_some, Field.valueOf?, hv]
    simp [Option.filter_some, fewer hu]

/-- A number that is kept as a unit of its own is a whole unit. -/
theorem Field.whole_unit (legal : field.tag ≠ 0 ∧ field.tag ≤ maxTag) {value : Scalar}
    (ofKind : value.isOfKind field.kind = true)
    (undeclared : narrow.isUndeclared field.kind value = true)
    : (field.unit field.wireKind value.toPayload).raw.whole
      = field.unit field.wireKind value.toPayload := by
  have alone : field.wireKind.payload? value.toPayload.bytes = some (value.toPayload, []) := by
    rw [Field.wireKind]
    cases hk : field.kind <;> cases value <;> simp [hk, Schema.isUndeclared] at undeclared
    exact Varint.payload?_encode (Int64.toUInt64 _).toNat_lt
  exact (Field.standing_unit legal.1 legal.2 alone).whole_raw

/-- What a value says under the narrow schema, read under the wide one: the value, either at once or
from the unit that was kept, and no unit is left.
-/
structure Value.ComesBack (narrow wide : Schema) (type : MessageType) (field : Field)
    (value : Value) : Prop where
  values
    : (value.readingIn narrow field).values.flatMap (fun said => (said.readingIn wide field).values)
      = if value.isUndeclared narrow field.kind then [] else [value.knownFirst narrow]
  revived
    : (value.readingIn narrow field).kept.filterMap (RawUnit.valueIn? wide type)
      = if value.isUndeclared narrow field.kind then [value.knownFirst narrow] else []
  kept
    : (value.readingIn narrow field).values.flatMap (fun said => (said.readingIn wide field).kept)
      = []
  left
    : (value.readingIn narrow field).kept.filter (fun unit => (unit.valueIn? wide type).isNone) = []

theorem Value.Fits.comesBack (hf : type.field? field.tag = some field)
    (legal : field.tag ≠ 0 ∧ field.tag ≤ maxTag) {value : Value} (h : value.Fits wide field.kind)
    (below
      : ∀ record,
          value = .message record → (record.under narrow).under wide = record.knownFirst narrow)
    : value.ComesBack narrow wide type field := by
  cases value with
  | message record =>
      have hback := below record rfl
      constructor <;>
        simp [Value.readingIn, Value.isUndeclared, Value.knownFirst, hback]
  | scalar scalar =>
      have declared : wide.isUndeclared field.kind scalar = false := h.declared scalar rfl
      have ofKind : scalar.isOfKind field.kind = true := h.ofKind
      cases hu : narrow.isUndeclared field.kind scalar with
      | false =>
          constructor <;>
            simp [Value.readingIn_scalar ofKind, hu, declared, Value.isUndeclared,
              Value.knownFirst]
      | true =>
          have whole := Field.whole_unit legal ofKind hu
          have revived : RawUnit.valueIn? wide type
                (field.unit field.wireKind scalar.toPayload).raw
              = some (.scalar scalar) := by
            have htag : (field.unit field.wireKind scalar.toPayload).raw.tag = field.tag := rfl
            have hpayload : (field.unit field.wireKind scalar.toPayload).payload
                = scalar.toPayload :=
              rfl
            rw [RawUnit.valueIn?, htag, hf, Option.bind_some, whole, hpayload, Field.valueOf?,
              Scalar.scalar?_toPayload ofKind]
            simp [Option.filter_some, declared]
          constructor <;>
            simp [Value.readingIn_scalar ofKind, hu, revived, Value.isUndeclared, Value.knownFirst]

end OneValue

-----------------------------------------------------------------------------------------
-- A record, there and back
-----------------------------------------------------------------------------------------

section OneRecord

variable {narrow wide : Schema} {type : MessageType} {field : Field}

/-- Values come back with those first that the narrow schema declares, and no unit is left. -/
theorem values_comeBack {values : List Value}
    (h : ∀ value ∈ values, value.ComesBack narrow wide type field)
    : saidIn wide field (saidIn narrow field values)
          ++ (keptIn narrow field values).filterMap (RawUnit.valueIn? wide type)
        = knownBefore narrow field.kind (knownFirstValues narrow values)
      ∧ keptIn wide field (saidIn narrow field values) = []
      ∧ (keptIn narrow field values).filter (fun unit => (unit.valueIn? wide type).isNone)
        = [] := by
  rw [knownBefore, knownFirstValues_eq_map]
  refine ⟨congrArg₂ (· ++ ·) ?_ ?_, ?_, ?_⟩
  all_goals
    induction values with
    | nil => rfl
    | cons value rest ih =>
        have back := h value List.mem_cons_self
        have hrest := ih (fun other ho => h other (List.mem_cons_of_mem value ho))
        simp only [saidIn, keptIn, List.flatMap_cons, List.flatMap_append, List.filterMap_append,
          List.filter_append, back.values, back.revived, back.kept, back.left, List.nil_append,
          List.map_cons, List.filter_cons, Value.isUndeclared_knownFirst] at hrest ⊢
        first
        | exact hrest
        | rw [hrest]
          cases value.isUndeclared narrow field.kind <;> rfl

variable {record : Record}

/-- Units that were kept under the wide schema stay as they are under both. -/
theorem Record.Conforms.filter_unitsAt (hc : record.Conforms wide) (there : Schema)
    (fewer
      : ∀ {kind value}, wide.isUndeclared kind value = true → there.isUndeclared kind value = true)
    (tag : Nat)
    : record.revived there tag = []
      ∧ (record.unknown.unitsAt tag).filter (fun unit =>
          (unit.valueIn? there record.type).isNone)
        = record.unknown.unitsAt tag := by
  have none : ∀ unit ∈ record.unknown.unitsAt tag, unit.valueIn? there record.type = none :=
    fun unit hu => (hc.here.unknown.of_mem_unitsAt hu).2.valueIn?_eq_none fewer
  refine ⟨List.filterMap_eq_nil_iff.mpr none, List.filter_eq_self.mpr (fun unit hu => ?_)⟩
  rw [none unit hu, Option.isNone_none]

/-- What the record, read under the narrow schema, holds at a tag: what its values say there. -/
theorem Record.Conforms.valuesAt_under (hc : record.Conforms wide) (narrows : narrow.Narrows wide)
    {tag : Nat} (hf : record.type.field? tag = some field)
    : (record.under narrow).valuesAt tag = saidIn narrow field (record.valuesAt tag)
      ∧ (record.under narrow).unknown.unitsAt tag
        = keptIn narrow field (record.valuesAt tag) ++ record.unknown.unitsAt tag := by
  obtain ⟨hvalues, hkept⟩ := record.readingsAt_declared narrow hf
  obtain ⟨hnone, hall⟩ := hc.filter_unitsAt narrow narrows.undeclared tag
  rw [hnone, List.append_nil] at hvalues
  rw [hall] at hkept
  refine ⟨?_, (hc.unitsAt_under tag).trans hkept⟩
  rw [valuesAt, hc.slot?_under, hf, Option.bind_some, hvalues]
  apply Reference.values_slotOf?
  -- Of a singular field there is one value, and that says one thing at most.
  cases hrep : field.isRepeated with
  | true => exact .inl rfl
  | false =>
      refine .inr ?_
      cases hs : record.slot? tag with
      | none => simp [valuesAt_of_slot?_eq_none hs, saidIn]
      | some slot =>
          obtain ⟨value, rfl⟩ := (hc.slot_of_field hs hf).exists_single hrep
          rw [valuesAt_of_slot? hs, Slot.values_single, saidIn, List.flatMap_singleton]
          exact value.length_values_readingIn

/-- What is said for a tag when the record comes back. -/
theorem Record.Conforms.readingsAt_under (hc : record.Conforms wide) (built : wide.Built)
    (narrows : narrow.Narrows wide) {tag : Nat} (hf : record.type.field? tag = some field)
    (below
      : ∀ nested,
          record.Holds nested → (nested.under narrow).under wide = nested.knownFirst narrow)
    : ((record.under narrow).readingsAt wide tag).flatMap Reading.values
        = knownBefore narrow field.kind (knownFirstValues narrow (record.valuesAt tag))
      ∧ ((record.under narrow).readingsAt wide tag).flatMap Reading.kept
        = record.unknown.unitsAt tag := by
  have htag := MessageType.tag_of_field? hf
  have hfu : (record.under narrow).type.field? tag = some field := by rw [under_type, hf]
  have back : ∀ value ∈ record.valuesAt tag,
      value.ComesBack narrow wide record.type field := by
    intro value hv
    have fits : value.Fits wide field.kind := by
      cases hs : record.slot? tag with
      | none => simp [valuesAt_of_slot?_eq_none hs] at hv
      | some slot =>
          rw [valuesAt_of_slot? hs] at hv
          exact ((hc.slot_of_field hs hf).value hv).fits
    exact fits.comesBack (htag ▸ hf) (built.field_legal hc.here.typed hf).1
      (fun nested he => below nested (holds_of_mem_valuesAt (he ▸ hv)))
  obtain ⟨hsaid, hunits⟩ := hc.valuesAt_under narrows hf
  obtain ⟨hvalues, hkept⟩ := (record.under narrow).readingsAt_declared wide hfu
  obtain ⟨hsorted, hnothing, hgone⟩ := values_comeBack back
  obtain ⟨hnone, hall⟩ := hc.filter_unitsAt wide id tag
  rw [revived] at hnone
  rw [hsaid, revived, hunits, under_type, List.filterMap_append, hnone, List.append_nil,
    hsorted] at hvalues
  rw [hsaid, hunits, under_type, List.filter_append, hall, hnothing, hgone, List.nil_append,
    List.nil_append] at hkept
  exact ⟨hvalues, hkept⟩

theorem Record.Conforms.readingsAt_under_undeclared (hc : record.Conforms wide) {tag : Nat}
    (hf : record.type.field? tag = none)
    : ((record.under narrow).readingsAt wide tag).flatMap Reading.kept
      = record.unknown.unitsAt tag := by
  have kept {there : Schema}
      : ((record.unknown.unitsAt tag).map (RawUnit.readingIn there record.type)).flatMap
          Reading.kept
        = record.unknown.unitsAt tag := by
    rw [(flatMap_readingIn _ _ _).2]
    refine List.filter_eq_self.mpr (fun unit hu => ?_)
    obtain ⟨rfl, _⟩ := hc.here.unknown.of_mem_unitsAt hu
    rw [RawUnit.valueIn?, hf, Option.bind_none, Option.isNone_none]
  have hfu : (record.under narrow).type.field? tag = none := by rw [under_type, hf]
  rw [readingsAt_of_field?_eq_none hfu, hc.unitsAt_under, readingsAt_of_field?_eq_none hf, kept,
    under_type, kept]

/-- Under the narrow schema and back, by induction over the records that are held. -/
theorem Record.Conforms.under_under (hc : record.Conforms wide) (built : wide.Built)
    (narrows : narrow.Narrows wide) (hlen : record.encoding.length < 2 ^ 64)
    : (record.under narrow).under wide = record.knownFirst narrow := by
  induction record using Record.nestedInduction with
  | step record ih =>
      have hread := Reference.decodeWithin?_under hc built narrows.messages
        (Nat.lt_succ_self record.depth) hlen
      have hn : (record.under narrow).Conforms narrow :=
        (Reference.decodeWithin?_sound _ hread).1
      have below : ∀ nested,
          record.Holds nested → (nested.under narrow).under wide = nested.knownFirst narrow := by
        intro nested holds
        have hle := hc.length_encoding_le built holds
        exact ih nested holds (hc.inner holds) (by omega)
      refine ext_of_slots ?_ (by simp) ascending_under (ascending_knownFirst hc.here.ascending)
        (fun tag => ?_) (ascending_unknown_under.ext ?_ (fun tag => ?_))
      · rw [under_schema, knownFirst_schema, hc.here.ofSchema]
      · rw [hn.slot?_under, under_type]
        cases hf : record.type.field? tag with
        | none => rw [slot?_knownFirst_undeclared hf, hc.slot?_eq_none hf, Option.bind_none]
        | some field =>
            rw [Option.bind_some, (hc.readingsAt_under built narrows hf below).1,
              slot?_knownFirst hf]
            cases hs : record.slot? tag with
            | none =>
                rw [valuesAt_of_slot?_eq_none hs]
                rfl
            | some slot =>
                rw [valuesAt_of_slot? hs]
                exact (hc.slot_of_field hs hf).slotOf?_knownBefore
      · rw [knownFirst_unknown]
        exact hc.here.unknown.ascending
      · have hkept : ((record.under narrow).readingsAt wide tag).flatMap Reading.kept
            = record.unknown.unitsAt tag := by
          cases hf : record.type.field? tag with
          | none => exact hc.readingsAt_under_undeclared hf
          | some field => exact (hc.readingsAt_under built narrows hf below).2
        rw [hn.find?_unknown_under, hkept, knownFirst_unknown,
          Reference.entryOf?_unitsAt (fun units => hc.here.unknown.nonempty)]

/-- A record of a newer schema is read under an older one that declares fewer numbers, and what is
written there is read under the newer one. All comes back, at every depth, and the same numbers in
the same fields; but in a list those that the older schema declares come before those that it does
not.
-/
theorem Record.Conforms.decode_there_and_back (hc : record.Conforms wide) (built : wide.Built)
    (older : narrow.Built) (narrows : narrow.Narrows wide) {limit : Nat}
    (hdepth : record.depth ≤ limit) (hlen : record.bytes.length < 2 ^ 63)
    : ∃ carried,
        decode narrow record.type.name record.bytes ⟨limit, false⟩ = .ok carried
        ∧ (carried.bytes.length < 2 ^ 63
          → decode wide record.type.name carried.bytes ⟨limit, false⟩
            = .ok (record.knownFirst narrow)) := by
  rw [bytes_eq_encoding] at hlen ⊢
  have short : record.encoding.length < 2 ^ 64 := Nat.lt_trans hlen (by decide)
  have hthere := Reference.decodeWithin?_under hc built narrows.messages
    (Nat.lt_succ_of_le hdepth) short
  have hcarried : (record.under narrow).Conforms narrow :=
    (Reference.decodeWithin?_sound _ hthere).1
  refine ⟨record.under narrow, decode_eq_ok_iff.mpr hthere, fun hlen => ?_⟩
  rw [bytes_eq_encoding] at hlen ⊢
  have hback := Reference.decodeWithin?_under hcarried older narrows.messages.symm
    (Reference.depth_lt_of_decodeWithin? hthere) (Nat.lt_trans hlen (by decide))
  rw [hc.under_under built narrows short, under_type] at hback
  exact decode_eq_ok_iff.mpr hback

end OneRecord

namespace AddressBook

/-- The schema of households with the older sorts. -/
def olderStreet : Schema := ⟨[olderPhoneType], [household false]⟩

theorem olderStreet_built : olderStreet.Built where
  enums := older_built.enums
  messages := (street_built false).messages
  closed := rfl

/-- A household with two telephones. -/
def twoSorts (first second : Int32) : Record :=
  ⟨street false, household false,
    [(1, .repeated [.scalar (.enum first), .scalar (.enum second)])], []⟩

/-- A household with a telephone at work and a mobile one, under the older schema. -/
def olderTwoSorts : Record :=
  ⟨olderStreet, household false, [(1, .repeated [.scalar (.enum 0)])],
    [(1, [⟨1, .varint, [0x08, 0x02]⟩])]⟩

theorem bytes_twoSorts : (twoSorts 2 0).bytes = [0x08, 0x02, 0x08, 0x00] := by
  decide +kernel

theorem bytes_olderTwoSorts : olderTwoSorts.bytes = [0x08, 0x00, 0x08, 0x02] := by
  decide +kernel

theorem reachable_twoSorts : (twoSorts 2 0).Reachable (street false) := by
  have read : Record.decode (street false) (household false).name [0x08, 0x02, 0x08, 0x00] {}
      = .ok (twoSorts 2 0) :=
    rfl
  exact .decoded read

/-- Both telephones come back, the mobile one before that at work. -/
theorem decode_there_and_back_household
    : ∃ carried,
        Record.decode olderStreet (household false).name (twoSorts 2 0).bytes ⟨0, false⟩
          = .ok carried
        ∧ Record.decode (street false) (household false).name carried.bytes ⟨0, false⟩
          = .ok (twoSorts 0 2) := by
  have narrows : olderStreet.Narrows (street false) := narrows_phoneType _
  have short : (twoSorts 2 0).bytes.length < 2 ^ 63 := by
    rw [bytes_twoSorts]
    decide
  have carriedShort : olderTwoSorts.bytes.length < 2 ^ 63 := by
    rw [bytes_olderTwoSorts]
    decide
  have read : Record.decode olderStreet (household false).name (twoSorts 2 0).bytes ⟨0, false⟩
      = .ok olderTwoSorts := by
    rw [bytes_twoSorts]
    rfl
  have ordered : (twoSorts 2 0).knownFirst olderStreet = twoSorts 0 2 := rfl
  obtain ⟨carried, hthere, hback⟩ := reachable_twoSorts.conforms.decode_there_and_back
    (street_built false) olderStreet_built narrows (Nat.le_refl 0) short
  obtain rfl := Except.ok.inj (read.symm.trans hthere)
  exact ⟨olderTwoSorts, read, ordered ▸ hback carriedShort⟩

/-- The telephone at work was the first, and does not come back as the first. -/
theorem there_and_back_reordered
    : olderStreet.Narrows (street false)
      ∧ olderStreet.Built
      ∧ (street false).Built
      ∧ (twoSorts 2 0).Reachable (street false)
      ∧ (twoSorts 2 0).depth = 0
      ∧ Record.decode olderStreet (household false).name (twoSorts 2 0).bytes ⟨0, false⟩
        = .ok olderTwoSorts
      ∧ ∃ back,
          Record.decode (street false) (household false).name olderTwoSorts.bytes ⟨0, false⟩
            = .ok back
          ∧ (twoSorts 2 0).getRepeated 1 = .ok [.scalar (.enum 2), .scalar (.enum 0)]
          ∧ back.getRepeated 1 = .ok [.scalar (.enum 0), .scalar (.enum 2)] := by
  refine ⟨narrows_phoneType _, olderStreet_built, street_built false, reachable_twoSorts, rfl, ?_,
    twoSorts 0 2, ?_, rfl, rfl⟩
  · rw [bytes_twoSorts]
    rfl
  · rw [bytes_olderTwoSorts]
    rfl

end AddressBook

end TagWire
