import TagWire.Proofs.Decoding.Concatenation
import TagWire.Proofs.Encoding.RoundTrip
import TagWire.Proofs.Wire.Recasts

/-!
A field that is written with one kind and read with another. The units of the field are the same for
both, so what is read of them is what the other kind makes of the payloads; and the other fields are
read as if this one were not there.
-/

namespace TagWire

/-- A kind that is read by another is not one of declared numbers. -/
theorem Kind.Recasts.isUndeclared_eq_false {kind other : Kind} (h : kind.Recasts other)
    (schema : Schema) (value : Scalar)
    : schema.isUndeclared kind value = false := by
  cases hu : schema.isUndeclared kind value with
  | false => rfl
  | true =>
      have varint := Schema.wireKind_of_isUndeclared hu
      cases h with
      | toBool h => cases h <;> simp [Schema.isUndeclared] at hu
      | word32 h _ => simp [h] at varint
      | word64 h _ => simp [h] at varint
      | _ => simp [Schema.isUndeclared] at hu

namespace Record

variable {writer : Schema} {record without : Record} {field : Field} {tag : Nat}

-----------------------------------------------------------------------------------------
-- The units of the other fields
-----------------------------------------------------------------------------------------

theorem clear_eq (hf : record.type.field? tag = some field) (h : record.clear tag = .ok without)
    : without = { record with slots := TagMap.erase tag record.slots } := by
  simp only [clear, fieldAt, hf] at h
  exact (Except.ok.inj h).symm

/-- Nothing is kept at the tag of a field whose kind is not one of declared numbers. -/
theorem Conforms.unitsAt_eq_nil (hc : record.Conforms writer)
    (hf : record.type.field? tag = some field)
    (plain : ∀ value, writer.isUndeclared field.kind value = false)
    : record.unknown.unitsAt tag = [] := by
  apply List.eq_nil_iff_forall_not_mem.mpr
  intro unit hu
  obtain ⟨filed, whole, _, rfl, foreign⟩ := hc.here.unknown.of_mem_unitsAt hu
  have htag : whole.tag = tag := filed
  rw [← htag] at hf
  rcases foreign with hnone | ⟨declared, value, hd, _, _, undeclared⟩
  · cases hf.symm.trans hnone
  · obtain rfl := Option.some.inj (hf.symm.trans hd)
    cases (plain value).symm.trans undeclared

/-- Without a slot, the units of the other tags are as they were. -/
theorem Conforms.filter_toUnits_erase (hc : record.Conforms writer) {third : Nat}
    (apart : third ≠ tag)
    : (toUnits { record with slots := TagMap.erase tag record.slots }).filter
        (fun unit => unit.tag == third)
      = record.toUnits.filter (fun unit => unit.tag == third) := by
  rw [(erase_keeps hc tag).1.filter_toUnits, slot?_erase, if_neg (Ne.symm apart), hc.filter_toUnits]

/-- No unit is written that was not written with the slot. -/
theorem Conforms.mem_toUnits_of_erase (hc : record.Conforms writer) {unit : WireUnit}
    (hu : unit ∈ toUnits { record with slots := TagMap.erase tag record.slots })
    : unit ∈ record.toUnits := by
  have hm : unit ∈ (toUnits { record with slots := TagMap.erase tag record.slots }).filter
      (fun other => other.tag == unit.tag) :=
    List.mem_filter.mpr ⟨hu, by simp⟩
  by_cases htag : unit.tag = tag
  · rw [(erase_keeps hc tag).1.filter_toUnits, slot?_erase, if_pos htag.symm] at hm
    have kept : unit ∈ record.toUnits.filter (fun other => other.tag == unit.tag) := by
      rw [hc.filter_toUnits]
      exact List.mem_append_right _ hm
    exact (List.mem_filter.mp kept).1
  · rw [hc.filter_toUnits_erase htag] at hm
    exact (List.mem_filter.mp hm).1

end Record

namespace Reference

variable {writer reader : Schema} {type : MessageType} {nested : String → Bytes → Option Record}

/-- If the units of a slot say something, and the record is read without the slot, then it is read
with it: at the tag of the slot is what the units say, and at any other tag nothing is different.
-/
theorem decodeBody?_beside {record rest : Record} {tag : Nat} (hc : record.Conforms writer)
    (built : writer.Built) (hlen : record.encoding.length < 2 ^ 64) {values : List Value}
    {kept : List RawUnit}
    (said
      : Says nested reader type (record.toUnits.filter (fun unit => unit.tag == tag)) values kept)
    (others
      : decodeBody? nested reader type
          (Record.encoding { record with slots := TagMap.erase tag record.slots })
        = some rest)
    : ∃ full,
        decodeBody? nested reader type record.encoding = some full
        ∧ full.slot? tag = (type.field? tag).bind (fun field => slotOf? field values)
        ∧ full.unknown.unitsAt tag = kept
        ∧ ∀ third,
            third ≠ tag
            → full.slot? third = rest.slot? third
              ∧ full.unknown.unitsAt third = rest.unknown.unitsAt third := by
  have standing := hc.standing built hlen
  have erasedUnits : WireUnit.units?
        (Record.encoding { record with slots := TagMap.erase tag record.slots })
      = some (Record.toUnits { record with slots := TagMap.erase tag record.slots }) := by
    rw [Record.encoding_eq]
    exact WireUnit.units?_flatMap (fun unit hu => standing unit (hc.mem_toUnits_of_erase hu))
  obtain ⟨units, readings, hunits, hread, rfl⟩ := decodeBody?_eq_some_iff.mp others
  obtain rfl := Option.some.inj (erasedUnits.symm.trans hunits)
  have each : ∀ unit ∈ record.toUnits,
      ∃ reading, readUnit? nested reader type unit = some reading := by
    intro unit hu
    have hm : unit ∈ record.toUnits.filter (fun other => other.tag == unit.tag) :=
      List.mem_filter.mpr ⟨hu, by simp⟩
    by_cases htag : unit.tag = tag
    · rw [htag] at hm
      obtain ⟨_, accepted, _⟩ := said
      exact Traversal.exists_mapM_of_mem accepted hm
    · rw [← hc.filter_toUnits_erase htag] at hm
      exact Traversal.exists_mapM_of_mem hread (List.mem_filter.mp hm).1
  obtain ⟨reread, hreread⟩ := Traversal.exists_mapM_eq_some each
  have full : decodeBody? nested reader type record.encoding = some (gather reader type reread) :=
    decodeBody?_eq_some_iff.mpr
      ⟨record.toUnits, reread, hc.units?_encoding built hlen, hreread, rfl⟩
  obtain ⟨hvalues, hkept⟩ := (says_filter hreread tag).unique said
  refine ⟨gather reader type reread, full, ?_, ?_, ?_⟩
  · rw [slot?_gather, hvalues]
  · rw [unitsAt_gather, hkept]
  · intro third apart
    have before := says_filter hread third
    rw [hc.filter_toUnits_erase apart] at before
    obtain ⟨sameValues, sameKept⟩ := (says_filter hreread third).unique before
    exact ⟨by rw [slot?_gather, slot?_gather, sameValues],
      by rw [unitsAt_gather, unitsAt_gather, sameKept]⟩

-----------------------------------------------------------------------------------------
-- The units of the field
-----------------------------------------------------------------------------------------

variable {field other : Field}

/-- The units of a slot say what its payloads are for the field that they are read by. -/
theorem says_recast (ho : type.field? field.tag = some other)
    (recasts : field.kind.Recasts other.kind) (rep : other.isRepeated = field.isRepeated)
    (legal : field.packed = true → field.isRepeated = true) {slot : Slot}
    (fits : ∀ value ∈ slot.values, value.Fits writer field.kind)
    (short : ∀ unit ∈ slot.toUnits field, unit.bytes.length < 2 ^ 64)
    : Says nested reader type (slot.toUnits field)
        ((slot.values.map Value.toPayload).filterMap (other.valueOf? reader))
        ((slot.values.map Value.toPayload).filterMap (other.keptOf? reader)) := by
  have htag : other.tag = field.tag := MessageType.tag_of_field? ho
  have wire : other.wireKind = field.wireKind := recasts.wireKind_eq
  have each : ∀ value ∈ slot.values,
      readUnit? nested reader type (field.unit field.wireKind value.toPayload)
        = some (elementReading reader other value.toPayload) := by
    intro value _
    rw [Field.unit, ← htag, ← wire]
    exact readUnit?_apart (htag ▸ ho) recasts.isPackable value.toPayload
  have hsays :=
    says_toUnits ho wire (fun hp => ⟨rep.trans (legal hp), recasts.isPackable⟩) fits short each
  obtain ⟨values, kept⟩ := flatMap_elementReading reader other (slot.values.map Value.toPayload)
  rw [List.flatMap_map, List.flatMap_map] at values kept
  rwa [values, kept] at hsays

/-- Scalars of a kind are read by another as they should be, and then all that are declared remain.
-/
theorem exists_reads (recasts : field.kind.Recasts other.kind) (written : List Scalar)
    (ofKind : ∀ value ∈ written, value.isOfKind field.kind = true)
    : ∃ reads,
        List.Forall₂ (fun value read => value.ReadAs other.kind read) written reads
        ∧ (written.map Scalar.toPayload).filterMap (other.valueOf? reader)
          = (reads.filter (fun read => !reader.isUndeclared other.kind read)).map .scalar := by
  induction written with
  | nil => exact ⟨[], .nil, rfl⟩
  | cons value rest ih =>
      obtain ⟨hvalue, hrest⟩ := List.forall_mem_cons.mp ofKind
      obtain ⟨read, spells, readAs⟩ := recasts.exists_readAs hvalue
      obtain ⟨reads, related, remain⟩ := ih hrest
      refine ⟨read :: reads, .cons readAs related, ?_⟩
      by_cases hu : reader.isUndeclared other.kind read = true
      · have dropped : other.valueOf? reader value.toPayload = none := by
          simp [Field.valueOf?, spells, Option.filter_some, hu]
        rw [List.map_cons, List.filterMap_cons_none dropped, remain,
          List.filter_cons_of_neg (by simp [hu])]
      · have held : other.valueOf? reader value.toPayload = some (.scalar read) := by
          simp [Field.valueOf?, spells, Option.filter_some, hu]
        rw [List.map_cons, List.filterMap_cons_some held, remain,
          List.filter_cons_of_pos (by simp [hu]), List.map_cons]

/-- Values of a kind that is read by another are scalars of that kind. -/
theorem exists_written (packable : field.kind.isPackable = true) {values : List Value}
    (fits : ∀ value ∈ values, value.Fits writer field.kind)
    : ∃ written : List Scalar,
        values = written.map .scalar ∧ ∀ value ∈ written, value.isOfKind field.kind = true := by
  induction values with
  | nil => exact ⟨[], rfl, fun _ hm => absurd hm List.not_mem_nil⟩
  | cons value rest ih =>
      obtain ⟨hvalue, hrest⟩ := List.forall_mem_cons.mp fits
      obtain ⟨scalar, rfl⟩ := exists_scalar_of_packable packable hvalue.ofKind
      obtain ⟨written, rfl, ofKind⟩ := ih hrest
      exact ⟨scalar :: written, rfl, List.forall_mem_cons.mpr ⟨hvalue.ofKind, ofKind⟩⟩

end Reference

namespace Record

open Reference

/-- A field that one schema declares with a kind and another with one that reads it: each value is
read as it should be, whatever the value is and whether values are packed on either side, and all
other fields are read as if this one were not there. Of the numbers that an enumeration is to read,
those that it declares are values; the others are kept as units.
-/
theorem Conforms.decode_recast {writer reader : Schema} {record without rest : Record}
    {type : MessageType} {field other : Field} {slot : Slot} {tag limit : Nat} {name : String}
    (hc : record.Conforms writer) (built : writer.Built) (hlen : record.bytes.length < 2 ^ 63)
    (hf : record.type.field? tag = some field) (hs : record.slot? tag = some slot)
    (typed : reader.message? name = some type) (ho : type.field? tag = some other)
    (recasts : field.kind.Recasts other.kind) (rep : other.isRepeated = field.isRepeated)
    (cleared : record.clear tag = .ok without)
    (hrest : decode reader name without.bytes ⟨limit, false⟩ = .ok rest)
    : ∃ full written reads,
        decode reader name record.bytes ⟨limit, false⟩ = .ok full
        ∧ slot.values = written.map .scalar
        ∧ List.Forall₂ (fun value read => value.ReadAs other.kind read) written reads
        ∧ full.slot? tag
          = slotOf? other
              ((reads.filter (fun read => !reader.isUndeclared other.kind read)).map .scalar)
        ∧ full.unknown.unitsAt tag
          = (slot.values.map Value.toPayload).filterMap (other.keptOf? reader)
        ∧ ∀ third,
            third ≠ tag
            → full.slot? third = rest.slot? third
              ∧ full.unknown.unitsAt third = rest.unknown.unitsAt third := by
  rw [bytes_eq_encoding] at hlen hrest ⊢
  have short : record.encoding.length < 2 ^ 64 := Nat.lt_trans hlen (by decide)
  obtain rfl := clear_eq hf cleared
  have htag : field.tag = tag := MessageType.tag_of_field? hf
  have hslot := hc.slot_of_field hs hf
  have fits : ∀ value ∈ slot.values, value.Fits writer field.kind :=
    fun value hv => (hslot.value hv).fits
  have packable : field.kind.isPackable = true := by
    rw [Kind.isPackable, ← recasts.wireKind_eq]
    exact recasts.isPackable
  have legal := (built.field_legal hc.here.typed hf).2
  have shortUnits : ∀ unit ∈ slot.toUnits field, unit.bytes.length < 2 ^ 64 := by
    intro unit hu
    exact Nat.lt_of_le_of_lt (length_le_of_mem_toUnits (hc.mem_toUnits hs hf hu)) short
  have hsays : Says (decodeWithin? reader limit) reader type (slot.toUnits field) _ _ :=
    says_recast (htag ▸ ho) recasts rep (fun hp => (legal hp).1) fits shortUnits
  have units : record.toUnits.filter (fun unit => unit.tag == tag) = slot.toUnits field := by
    have nothing := hc.unitsAt_eq_nil hf (recasts.isUndeclared_eq_false writer)
    rw [hc.filter_toUnits, nothing, hs]
    simp only [MessageType.unitsAt, hf, List.map_nil, List.append_nil]
  rw [← units] at hsays
  have decodes (bytes : Bytes) (record : Record)
      : decode reader name bytes ⟨limit, false⟩ = .ok record
        ↔ decodeBody? (decodeWithin? reader limit) reader type bytes = some record := by
    rw [decode_eq_ok_iff, decode?, decodeWithin?, typed, Option.bind_some]
  obtain ⟨full, hfull, atTag, keptAt, apart⟩ :=
    decodeBody?_beside hc built short hsays ((decodes _ rest).mp hrest)
  obtain ⟨written, hwritten, ofKind⟩ := exists_written packable fits
  obtain ⟨reads, readAs, remain⟩ := exists_reads recasts written ofKind
  refine ⟨full, written, reads, (decodes _ full).mpr hfull, hwritten, readAs, ?_, keptAt, apart⟩
  have payloads : slot.values.map Value.toPayload = written.map Scalar.toPayload := by
    rw [hwritten, List.map_map]
    rfl
  rw [atTag, ho, Option.bind_some, payloads, remain]

end Record

namespace AddressBook

/-- The balances of telephones, as numbers of some kind. -/
def balances (kind : Kind) (packed : Bool) : Field where
  name := "balances"
  tag := 1
  cardinality := .repeated
  kind := kind
  packed := packed

/-- A bill has balances, and how many telephones there are. -/
def bill (kind : Kind) (packed : Bool) : MessageType where
  name := "tutorial.Bill"
  fields :=
    [balances kind packed,
      { name := "phones", tag := 2, cardinality := .optional, kind := .uint32 }]

/-- The schema of bills. -/
def bills (kind : Kind) (packed : Bool) : Schema := ⟨[], [bill kind packed]⟩

theorem bills_built : (bills .int32 true).Built where
  enums _ hm := absurd hm List.not_mem_nil
  messages type hm := by
    obtain rfl := List.mem_singleton.mp hm
    rfl
  closed := rfl

/-- A bill with a balance below zero, which takes ten bytes, and one above. -/
def quarterBill : Record :=
  ⟨bills .int32 true, bill .int32 true,
    [(1, .repeated [.scalar (.int32 (-1)), .scalar (.int32 5)]),
      (2, .single (.scalar (.uint32 2)))],
    []⟩

/-- The bill without its balances. -/
def emptyBill (kind : Kind) (packed : Bool) : Record :=
  ⟨bills kind packed, bill kind packed, [(2, .single (.scalar (.uint32 2)))], []⟩

theorem bytes_quarterBill
    : quarterBill.bytes
      = [0x0A, 0x0B, 0xFF, 0xFF, 0xFF, 0xFF, 0xFF, 0xFF, 0xFF, 0xFF, 0xFF, 0x01, 0x05, 0x10, 0x02]
    := by
  decide +kernel

theorem reachable_quarterBill : quarterBill.Reachable (bills .int32 true) := by
  have made : Record.make (bills .int32 true) (bill .int32 true).name
      = .ok (.empty (bills .int32 true) (bill .int32 true)) :=
    rfl
  have nothing (edit : Edit) (h : edit.given = []) : ∀ other ∈ edit.given,
      other.Reachable (bills .int32 true) := by
    intro other ho
    rw [h] at ho
    exact absurd ho List.not_mem_nil
  exact .edited [] (.edited [] (.edited [] (.made made)
    (nothing (.append 1 (.scalar (.int32 (-1)))) rfl))
    (nothing (.append 1 (.scalar (.int32 5))) rfl))
    (nothing (.set 2 (.scalar (.uint32 2))) rfl)

/-- A packed run of 32-bit numbers is read as numbers of 64 bits, which are the same numbers, though
the reader does not pack them; and the other field is read beside it.
-/
theorem decode_recast_bill
    : ∃ full,
        Record.decode (bills .int64 false) (bill .int64 false).name quarterBill.bytes ⟨0, false⟩
          = .ok full
        ∧ full.slot? 1 = some (.repeated [.scalar (.int64 (-1)), .scalar (.int64 5)])
        ∧ full.slot? 2 = some (.single (.scalar (.uint32 2))) := by
  have short : quarterBill.bytes.length < 2 ^ 63 := by
    rw [bytes_quarterBill]
    decide
  have phones : (emptyBill .int32 true).bytes = [0x10, 0x02] := by decide +kernel
  have rest : Record.decode (bills .int64 false) (bill .int64 false).name
      (emptyBill .int32 true).bytes ⟨0, false⟩ = .ok (emptyBill .int64 false) := by
    rw [phones]
    rfl
  have cleared : quarterBill.clear 1 = .ok (emptyBill .int32 true) := rfl
  have typed : (bills .int64 false).message? (bill .int64 false).name = some (bill .int64 false) :=
    rfl
  have declared (kind : Kind) (packed : Bool)
      : (bill kind packed).field? 1 = some (balances kind packed) :=
    rfl
  have held : quarterBill.slot? 1
      = some (.repeated [.scalar (.int32 (-1)), .scalar (.int32 5)]) :=
    rfl
  obtain ⟨full, written, reads, hfull, hwritten, readAs, atTag, _, apart⟩ :=
    reachable_quarterBill.conforms.decode_recast bills_built short (declared .int32 true) held typed
      (declared .int64 false) .int32_int64 rfl cleared rest
  refine ⟨full, hfull, ?_, (apart 2 (by decide)).1⟩
  obtain rfl : [.int32 (-1), .int32 5] = written :=
    List.map_injective_iff.mpr (fun _ _ h => Value.scalar.inj h) hwritten
  rcases readAs with _ | ⟨first, _ | ⟨second, _ | _⟩⟩
  obtain rfl := first.eq_int64
  obtain rfl := second.eq_int64
  exact atTag

end AddressBook

end TagWire
