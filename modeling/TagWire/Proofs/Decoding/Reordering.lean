import TagWire.AddressBook.Schema
import TagWire.Proofs.Decoding.Concatenation
import TagWire.Proofs.Decoding.Rereading

/-!
Units in another order. What a record holds at a tag comes of the units with that tag alone, so units
of different tags may change places, and only those of one tag have to stay in their order.
-/

namespace TagWire

/-- The same units in another order, in which those with one tag keep theirs. -/
structure WireUnit.Reordered (units others : List WireUnit) : Prop where
  perm : others.Perm units
  sameTag
    : ∀ tag,
        others.filter (fun unit => unit.tag == tag) = units.filter (fun unit => unit.tag == tag)

namespace Reference

variable {schema : Schema} {type : MessageType} {nested : String → Bytes → Option Record}
  {units others : List WireUnit}

/-- Units in another order are all read, and at each tag they say what they said before. -/
theorem exists_readings_reordered (h : WireUnit.Reordered units others) {readings : List Reading}
    (hr : units.mapM (readUnit? nested schema type) = some readings)
    : ∃ reread,
        others.mapM (readUnit? nested schema type) = some reread
        ∧ ∀ tag,
            Reading.valuesAt reread tag = Reading.valuesAt readings tag
            ∧ Reading.keptAt reread tag = Reading.keptAt readings tag := by
  have accepted : ∀ unit ∈ others, ∃ reading, readUnit? nested schema type unit = some reading := by
    intro unit hu
    exact Traversal.exists_mapM_of_mem hr (h.perm.mem_iff.mp hu)
  obtain ⟨reread, ho⟩ := Traversal.exists_mapM_eq_some accepted
  refine ⟨reread, ho, ?_⟩
  intro tag
  have hsays := says_filter ho tag
  rw [h.sameTag tag] at hsays
  exact hsays.unique (says_filter hr tag)

/-- Bytes of units in another order are decoded to the same record. -/
theorem decodeBody?_reordered (standing : ∀ unit ∈ units, unit.Standing)
    (h : WireUnit.Reordered units others) {record : Record}
    (hd : decodeBody? nested schema type (units.flatMap WireUnit.bytes) = some record)
    : decodeBody? nested schema type (others.flatMap WireUnit.bytes) = some record := by
  obtain ⟨parts, readings, hu, hr, rfl⟩ := decodeBody?_eq_some_iff.mp hd
  obtain rfl : units = parts := Option.some.inj ((WireUnit.units?_flatMap standing).symm.trans hu)
  obtain ⟨reread, ho, same⟩ := exists_readings_reordered h hr
  have stand : ∀ unit ∈ others, unit.Standing := by
    intro unit hm
    exact standing unit (h.perm.mem_iff.mp hm)
  have hexchanged := decodeBody?_exchanged standing stand hr ho same CutsFront.cutAll?_nil []
  rw [List.nil_append, List.nil_append, List.append_nil, List.append_nil] at hexchanged
  exact hexchanged.trans hd

end Reference

/-- The order of tags does not matter to the decoder. Bytes that are decoded divide into units, and
the bytes of these units in any order that keeps those of one tag in theirs are decoded to the same
record.
-/
theorem Record.decode_reordered {schema : Schema} {name : String} {bytes : Bytes}
    {options : DecodeOptions} {record : Record}
    (h : decode schema name bytes options = .ok record)
    : ∃ units,
        WireUnit.units? bytes = some units
        ∧ units.flatMap WireUnit.bytes = bytes
        ∧ ∀ others,
            WireUnit.Reordered units others
            → decode schema name (others.flatMap WireUnit.bytes) options = .ok record := by
  obtain ⟨plain, complete⟩ := decode_eq_ok_iff_unchecked.mp h
  obtain ⟨type, typed, hbody⟩ := Option.bind_eq_some_iff.mp (decode_eq_ok_iff.mp plain)
  obtain ⟨units, readings, hu, hr, he⟩ := Reference.decodeBody?_eq_some_iff.mp hbody
  have hbytes := (WireUnit.first?_cuts.of_cutAll? hu).1
  refine ⟨units, hu, hbytes.symm, ?_⟩
  intro others reordered
  rw [hbytes] at hbody
  have hsame := Reference.decodeBody?_reordered (WireUnit.standing_of_units? hu) reordered hbody
  refine decode_eq_ok_iff_unchecked.mpr ⟨decode_eq_ok_iff.mpr ?_, complete⟩
  exact Option.bind_eq_some_iff.mpr ⟨type, typed, hsame⟩

namespace AddressBook

/-- The sort of a telephone, its number, and a sort that is not declared. -/
def phoneUnits : List WireUnit :=
  [⟨2, .varint, [0x10], ⟨[], [0x01]⟩⟩, ⟨1, .lengthDelimited, [0x0A], ⟨[0x01], [0x35]⟩⟩,
    ⟨2, .varint, [0x10], ⟨[], [0x09]⟩⟩]

/-- The number, and then the two sorts as they came. -/
def numberFirst : List WireUnit :=
  [⟨1, .lengthDelimited, [0x0A], ⟨[0x01], [0x35]⟩⟩, ⟨2, .varint, [0x10], ⟨[], [0x01]⟩⟩,
    ⟨2, .varint, [0x10], ⟨[], [0x09]⟩⟩]

/-- The telephone with both sorts, of which one is kept as a unit. -/
def twiceSorted : Record :=
  ⟨schema, phone, [(1, .single (.scalar (.string "5"))), (2, .single (.scalar (.enum 1)))],
    [(2, [⟨2, .varint, [0x10, 0x09]⟩])]⟩

/-- The number may come before the sorts. -/
theorem decode_reordered_phone
    : Record.decode schema phone.name (phoneUnits.flatMap WireUnit.bytes) {} = .ok twiceSorted
      ∧ WireUnit.Reordered phoneUnits numberFirst
      ∧ Record.decode schema phone.name (numberFirst.flatMap WireUnit.bytes) {}
        = .ok twiceSorted := by
  have read
      : Record.decode schema phone.name (phoneUnits.flatMap WireUnit.bytes) {}
        = .ok twiceSorted :=
    rfl
  have standing : ∀ unit ∈ phoneUnits, unit.Standing := by
    simp only [phoneUnits, List.forall_mem_cons, List.not_mem_nil, false_implies, implies_true,
      and_true]
    exact ⟨rfl, rfl, rfl⟩
  have reordered : WireUnit.Reordered phoneUnits numberFirst := by
    refine ⟨.swap _ _ _, fun tag => ?_⟩
    by_cases number : 1 = tag
    · subst number
      rfl
    · simp [phoneUnits, numberFirst, List.filter_cons, number]
  obtain ⟨units, hu, _, same⟩ := Record.decode_reordered read
  obtain rfl := Option.some.inj ((WireUnit.units?_flatMap standing).symm.trans hu)
  exact ⟨read, reordered, same numberFirst reordered⟩

end AddressBook

end TagWire
