import TagWire.Proofs.Decoding.Rereading
import TagWire.Proofs.Encoding.Writing
import TagWire.Proofs.Records.Reachability

/-!
A conforming record is read back from its own bytes, whatever is nested in it.
-/

namespace TagWire

section RoundTrip

variable {schema : Schema}

/-- The bytes of a nested record stand among those of the record that holds it. -/
theorem Record.Conforms.length_encoding_le {record nested : Record}
    (hc : record.Conforms schema) (built : schema.Built) (h : record.Holds nested)
    : nested.encoding.length ≤ record.encoding.length := by
  rcases h with ⟨⟨tag, slot⟩, hentry, hm⟩
  have hs : record.slot? tag = some slot := hc.here.ascending.find?_of_mem hentry
  obtain ⟨field, hf, hslot⟩ := hc.slot hs
  have hk := (hslot.value hm).fits.kind_eq
  -- A packed run would hide the record in another unit, but records are not packed.
  have unpacked : ¬ field.packed = true := by
    intro hp
    have hpack := ((built.field_legal hc.here.typed hf).2 hp).2
    simp [hk, Kind.isPackable, Kind.wireKind] at hpack
  have hu : field.unit field.wireKind (Value.message nested).toPayload ∈ slot.toUnits field := by
    cases slot with
    | single value =>
        obtain rfl := List.mem_singleton.mp hm
        exact List.mem_singleton_self _
    | repeated values =>
        have hne : ¬ values.isEmpty = true := by
          rw [List.isEmpty_iff]
          exact List.ne_nil_of_mem hm
        rw [Slot.toUnits, if_neg hne, if_neg unpacked, toPayloads_eq_map, List.map_map]
        exact List.mem_map_of_mem hm
  have hle := length_le_of_mem_toUnits (hc.mem_toUnits hs hf hu)
  simp only [WireUnit.bytes, Field.unit, Value.toPayload, Payload.bytes, Payload.delimited,
    List.length_append] at hle
  omega

namespace Reference

/-- The values of a slot make up the slot. -/
theorem slotOf?_values {field : Field} {slot : Slot} (h : slot.Fits schema field)
    : slotOf? field slot.values = some slot := by
  cases h with
  | single singular fits => simp [slotOf?, singular]
  | repeated repeated nonempty fits =>
      obtain ⟨first, rest, rfl⟩ := List.exists_cons_of_ne_nil nonempty
      simp [slotOf?, repeated]

theorem bind_slotOf?_values {record : Record} (hc : record.Conforms schema) (tag : Nat)
    : (record.type.field? tag).bind (fun field =>
        slotOf? field (record.valuesAt tag))
      = record.slot? tag := by
  cases hs : record.slot? tag with
  | none =>
      rw [Record.valuesAt_of_slot?_eq_none hs]
      cases record.type.field? tag <;> rfl
  | some slot =>
      obtain ⟨field, hf, hslot⟩ := hc.slot hs
      rw [Record.valuesAt_of_slot? hs, hf]
      exact slotOf?_values hslot.fits

/-- A conforming record is what the rules make of its bytes, by induction over the records that it
holds: at every tag its units say what stands there.
-/
theorem decodeWithin?_encoding {record : Record} (hc : record.Conforms schema)
    (built : schema.Built) {levels : Nat} (hdepth : record.depth < levels)
    (hlen : record.encoding.length < 2 ^ 64)
    : decodeWithin? schema levels record.type.name record.encoding = some record := by
  induction record using Record.nestedInduction generalizing levels with
  | step record ih =>
      obtain ⟨levels, rfl⟩ := Nat.exists_eq_add_one_of_ne_zero (Nat.ne_zero_of_lt hdepth)
      rw [decodeWithin?, hc.here.typed, Option.bind_some]
      refine decodeBody?_eq_some_of_says (hc.units?_encoding built hlen) hc.here.ofSchema rfl
        hc.here.ascending hc.here.unknown.ascending (fun tag => ?_)
        (fun tag units hf => hc.here.unknown.nonempty hf)
      refine ⟨_, says_record hc built hlen tag (Traversal.mapM_eq_some_self ?_),
        bind_slotOf?_values hc tag⟩
      intro value hv
      cases value with
      | scalar scalar => rfl
      | message nested =>
          have holds := Record.holds_of_mem_valuesAt hv
          have hle := hc.length_encoding_le built holds
          have hlt := Record.depth_lt_of_holds holds
          have hn : decodeWithin? schema levels nested.type.name nested.encoding = some nested :=
            ih nested holds (hc.inner holds) (by omega) (by omega)
          rw [reread?, hn, Option.map_some]

end Reference

/-- A conforming record is decoded from its bytes. -/
theorem Record.Conforms.decode_bytes {record : Record} (hc : record.Conforms schema)
    (built : schema.Built) {limit : Nat} (hdepth : record.depth ≤ limit)
    (hlen : record.bytes.length < 2 ^ 64)
    : decode schema record.type.name record.bytes ⟨limit, false⟩ = .ok record := by
  rw [record.bytes_eq_encoding] at hlen ⊢
  exact decode_eq_ok_iff.mpr
    (Reference.decodeWithin?_encoding hc built (Nat.lt_succ_of_le hdepth) hlen)

/-- A record that a program can come by is decoded from its bytes, with all that is nested in it and
all units that it keeps, if records may nest as deep as in it. Written again, it gives the same
bytes.
-/
theorem Record.decode_bytes_of_reachable (built : schema.Built) {record : Record}
    (h : record.Reachable schema) (hlen : record.bytes.length < 2 ^ 63) {limit : Nat}
    (hdepth : record.depth ≤ limit)
    : decode schema record.type.name record.bytes ⟨limit, false⟩ = .ok record
      ∧ (decode schema record.type.name record.bytes ⟨limit, false⟩).map Record.bytes
        = .ok record.bytes := by
  have hd := h.conforms.decode_bytes built hdepth (Nat.lt_trans hlen (by decide))
  exact ⟨hd, by rw [hd]; rfl⟩

end RoundTrip

namespace AddressBook

/-- A telephone of a sort that is not declared. -/
def oddTelephone : Record := ⟨schema, phone, [], [(2, [⟨2, .varint, [0x10, 0x09]⟩])]⟩

/-- A person with that telephone. -/
def owner : Record := ⟨schema, person, [(4, .repeated [.message oddTelephone])], []⟩

/-- The telephone is read, and then added to a new person. -/
theorem reachable_owner : owner.Reachable schema := by
  have read : Record.decode schema phone.name [0x10, 0x09] {} = .ok oddTelephone := rfl
  have made : Record.make schema person.name = .ok (.empty schema person) := rfl
  have given : ∀ other ∈ (Edit.append 4 (.message oddTelephone)).given,
      other.Reachable schema := by
    intro other ho
    obtain rfl := List.mem_singleton.mp ho
    exact .decoded read
  exact .edited [] (.made made) given

/-- The round trip of a person with a telephone whose sort is kept as a unit. -/
theorem decode_bytes_owner
    : owner.Reachable schema
      ∧ owner.bytes.length < 2 ^ 63
      ∧ owner.depth ≤ 1
      ∧ Record.decode schema owner.type.name owner.bytes ⟨1, false⟩ = .ok owner := by
  have hlen : owner.bytes.length < 2 ^ 63 := by decide +kernel
  have hdepth : owner.depth ≤ 1 := by decide
  exact ⟨reachable_owner, hlen, hdepth,
    (Record.decode_bytes_of_reachable schema_built reachable_owner hlen hdepth).1⟩

end AddressBook

end TagWire
