import TagWire.Proofs.Decoding.Packing
import TagWire.Proofs.Encoding.RoundTrip
import TagWire.Proofs.Records.Unpacking

/-!
Decoding does not look at packed flags: whether a field is declared packed or not, both forms are
read, and what is made of them is the same but for the flags themselves.
-/

namespace TagWire

/-- A reading without the packed flags in the types of its records. -/
def Reading.unpacked (reading : Reading) : Reading :=
  { reading with values := reading.values.map Value.unpacked }

namespace Reading

theorem filter_tag_unpacked (readings : List Reading) (tag : Nat)
    : (readings.map unpacked).filter (fun reading => reading.tag == tag)
      = (readings.filter (fun reading => reading.tag == tag)).map unpacked :=
  List.filter_map

theorem valuesAt_unpacked (readings : List Reading) (tag : Nat)
    : valuesAt (readings.map unpacked) tag = (valuesAt readings tag).map Value.unpacked := by
  rw [valuesAt, valuesAt, filter_tag_unpacked, List.flatMap_map, List.map_flatMap]
  rfl

theorem keptAt_unpacked (readings : List Reading) (tag : Nat)
    : keptAt (readings.map unpacked) tag = keptAt readings tag := by
  rw [keptAt, keptAt, filter_tag_unpacked, List.flatMap_map]
  rfl

end Reading

namespace Reference

variable {schema : Schema} {type : MessageType}

theorem later_unpacked (earlier value : Value)
    : later earlier.unpacked value.unpacked = (later earlier value).unpacked := by
  cases earlier with
  | scalar earlier => cases value <;> simp only [Value.unpacked, later]
  | message earlier =>
      cases value with
      | scalar value => simp only [Value.unpacked, later]
      | message record => simp only [Value.unpacked, later, Record.unpacked_overlay]

theorem foldl_later_unpacked (first : Value) (rest : List Value)
    : (rest.map Value.unpacked).foldl later first.unpacked = (rest.foldl later first).unpacked := by
  induction rest generalizing first with
  | nil => rfl
  | cons value rest ih => rw [List.map_cons, List.foldl_cons, List.foldl_cons, later_unpacked, ih]

theorem slotOf?_unpacked (field : Field) (values : List Value)
    : slotOf? field.unpacked (values.map Value.unpacked)
      = (slotOf? field values).map Slot.unpacked := by
  have hrepeated : field.unpacked.isRepeated = field.isRepeated := rfl
  cases values with
  | nil => rfl
  | cons first rest =>
      simp only [slotOf?, List.map_cons, hrepeated, Option.map_some]
      by_cases hrep : field.isRepeated = true
      · rw [if_pos hrep, if_pos hrep, Slot.unpacked, unpackedValues_eq_map, List.map_cons]
      · rw [if_neg hrep, if_neg hrep, Slot.unpacked, foldl_later_unpacked]

/-- What is made up of readings has no packed flags if the readings have none. -/
theorem gather_unpacked (readings : List Reading)
    : gather schema.unpacked type.unpacked (readings.map Reading.unpacked)
      = (gather schema type readings).unpacked := by
  have htags : (readings.map Reading.unpacked).map Reading.tag = readings.map Reading.tag := by
    rw [List.map_map]
    rfl
  have hslot (tag : Nat)
      : (type.unpacked.field? tag).bind (fun field =>
          slotOf? field (Reading.valuesAt (readings.map Reading.unpacked) tag))
        = ((type.field? tag).bind (fun field =>
            slotOf? field (Reading.valuesAt readings tag))).map Slot.unpacked := by
    rw [MessageType.field?_unpacked, Reading.valuesAt_unpacked]
    cases type.field? tag with
    | none => rfl
    | some field => exact slotOf?_unpacked field _
  simp only [gather, Record.unpacked, unpackedSlots_eq_map, TagMap.mapValues_tabulate, htags, hslot,
    Reading.keptAt_unpacked]

/-- What a scalar says has no types in it. -/
theorem readScalar?_unpacked (field : Field) (content : Bytes) (whole : RawUnit)
    : readScalar? schema.unpacked field.unpacked content whole
        = readScalar? schema field content whole
      ∧ (readScalar? schema field content whole).map Reading.unpacked
        = readScalar? schema field content whole := by
  refine ⟨rfl, ?_⟩
  rw [readScalar?, Option.map_map]
  congr 1
  funext value
  rw [Function.comp_apply]
  split
  · rfl
  · simp only [Reading.unpacked, List.map_cons, List.map_nil, Value.unpacked]

theorem readRun?_unpacked (field : Field) (run : Bytes)
    : readRun? schema.unpacked field.unpacked run
        = readRun? schema field run
      ∧ (readRun? schema field run).map Reading.unpacked = readRun? schema field run := by
  refine ⟨rfl, ?_⟩
  have helement : readElement? schema field
      = fun element => (readElement? schema field element).map Reading.unpacked := by
    funext element
    exact (readScalar?_unpacked field element.content _).2.symm
  rw [readRun?]
  cases cutAll? field.wireKind.payload? run with
  | none => rfl
  | some elements =>
      have hall : (elements.mapM (readElement? schema field)).map (List.map Reading.unpacked)
          = elements.mapM (readElement? schema field) := by
        conv_rhs => rw [helement]
        exact (Traversal.mapM_comp_map Reading.unpacked elements).symm
      rw [Option.bind_some]
      cases hr : elements.mapM (readElement? schema field) with
      | none => rfl
      | some readings =>
          rw [hr] at hall
          have hvalues : (readings.flatMap Reading.values).map Value.unpacked
              = (readings.map Reading.unpacked).flatMap Reading.values := by
            rw [List.flatMap_map, List.map_flatMap]
            rfl
          rw [Option.some.inj hall] at hvalues
          simp only [Option.map_some, Reading.unpacked, hvalues]

/-- A unit says the same without packed flags, if nested records are decoded so. -/
theorem readUnit?_unpacked {nested plain : String → Bytes → Option Record}
    (h : ∀ name bytes, plain name bytes = (nested name bytes).map Record.unpacked)
    (unit : WireUnit)
    : readUnit? plain schema.unpacked type.unpacked unit
      = (readUnit? nested schema type unit).map Reading.unpacked := by
  have hfield := type.field?_unpacked unit.tag
  cases hf : type.field? unit.tag with
  | none =>
      rw [hf] at hfield
      rw [readUnit?_undeclared hf, readUnit?_undeclared hfield]
      rfl
  | some field =>
      rw [hf] at hfield
      by_cases hw : unit.wire = field.wireKind
      · cases hm : field.kind.message? with
        | none =>
            obtain ⟨hsame, hfixed⟩ := readScalar?_unpacked field
              unit.payload.content unit.raw
            rw [readUnit?_scalar hfield hw hm, readUnit?_scalar hf hw hm, hsame, hfixed]
        | some target =>
            have hk : field.kind = .message target := Kind.eq_message_of_message? hm
            rw [readUnit?_message hfield hw hk, readUnit?_message hf hw hk, h, Option.map_map,
              Option.map_map]
            congr 1
      · obtain ⟨hsame, hfixed⟩ := readRun?_unpacked field unit.payload.content
        have hrepeated : field.unpacked.isRepeated = field.isRepeated := rfl
        have hkind : field.unpacked.kind = field.kind := rfl
        rw [readUnit?_other hfield hw, readUnit?_other hf hw, hrepeated, hkind]
        split
        · rw [hsame, hfixed]
        · rfl

/-- Decoding without packed flags gives the record without packed flags, by induction on the levels
that it may take up.
-/
theorem decodeWithin?_unpacked (schema : Schema) (levels : Nat) (name : String) (bytes : Bytes)
    : decodeWithin? schema.unpacked levels name bytes
      = (decodeWithin? schema levels name bytes).map Record.unpacked := by
  induction levels generalizing name bytes with
  | zero => rfl
  | succ levels ih =>
      simp only [decodeWithin?, schema.message?_unpacked]
      cases schema.message? name with
      | none => rfl
      | some type =>
          simp only [Option.map_some, Option.bind_some, decodeBody?]
          cases WireUnit.units? bytes with
          | none => rfl
          | some units =>
              have hunit : readUnit? (decodeWithin? schema.unpacked levels) schema.unpacked
                    type.unpacked
                  = fun unit =>
                      (readUnit? (decodeWithin? schema levels) schema type unit).map
                        Reading.unpacked := by
                funext unit
                exact readUnit?_unpacked ih unit
              rw [Option.bind_some, Option.bind_some, hunit, Traversal.mapM_comp_map]
              cases units.mapM (readUnit? (decodeWithin? schema levels) schema type) with
              | none => rfl
              | some readings => exact congrArg some (gather_unpacked readings)

end Reference

/-- Two schemas that differ only in packed flags decode bytes to records that differ only in them.
-/
theorem Record.exists_decode_of_unpacked_eq {schema other : Schema}
    (same : other.unpacked = schema.unpacked) {name : String} {bytes : Bytes} {limit : Nat}
    {record : Record} (h : decode schema name bytes ⟨limit, false⟩ = .ok record)
    : ∃ read,
        decode other name bytes ⟨limit, false⟩ = .ok read
        ∧ read.unpacked = record.unpacked := by
  have hplain : (Reference.decode? other limit name bytes).map Record.unpacked
      = some record.unpacked := by
    rw [Reference.decode?, ← Reference.decodeWithin?_unpacked, same,
      Reference.decodeWithin?_unpacked, ← Reference.decode?, decode_eq_ok_iff.mp h, Option.map_some]
  obtain ⟨read, hread, hsame⟩ := Option.map_eq_some_iff.mp hplain
  exact ⟨read, decode_eq_ok_iff.mpr hread, hsame⟩

/-- Packed and unpacked forms are interchangeable under a built schema. A list of elements of a
repeated field may be cut into chunks in any way, and each chunk sent packed or apart, whether the
field is declared packed or not. And what is written under the schema is decoded under one with other
packed flags: the record differs in these flags only, and is the same to the test for sameness.
-/
theorem Record.decode_packed_or_apart {schema : Schema} (built : schema.Built)
    : (∀ {name : String} {type : MessageType} {field : Field} {chunks others : List Chunk},
        schema.message? name = some type
        → type.field? field.tag = some field
        → field.isRepeated = true
        → field.kind.isPackable = true
        → Chunk.Recut field chunks others
        → Chunk.ReadAlike schema name field chunks others)
      ∧ ∀ {other : Schema} {record : Record} {limit : Nat},
          other.unpacked = schema.unpacked
          → record.Reachable schema
          → record.bytes.length < 2 ^ 63
          → record.depth ≤ limit
          → ∃ read,
              decode other record.type.name record.bytes ⟨limit, false⟩ = .ok read
              ∧ read.unpacked = record.unpacked
              ∧ ∀ third, read.same third = record.same third := by
  refine ⟨fun typed hf hrep hp recut => recut.readAlike built typed hf hrep hp, ?_⟩
  intro other record limit same reachable hlen hdepth
  have hread := reachable.conforms.decode_bytes built hdepth (Nat.lt_trans hlen (by decide))
  obtain ⟨read, hother, hsame⟩ := exists_decode_of_unpacked_eq same hread
  refine ⟨read, hother, hsame, ?_⟩
  intro third
  rw [← read.same_unpacked third, hsame, record.same_unpacked third]

namespace AddressBook

/-- The sorts of telephone in a household and, nested, in the one next door. -/
def household (packed : Bool) : MessageType where
  name := "tutorial.Household"
  fields :=
    [{ name := "types", tag := 1, cardinality := .repeated, kind := .enum phoneType.name,
        packed := packed },
      { name := "next", tag := 2, cardinality := .optional, kind := .message "tutorial.Household" }]

/-- The schema of households, with the sorts packed or not. -/
def street (packed : Bool) : Schema := ⟨[phoneType], [household packed]⟩

theorem street_built (packed : Bool) : (street packed).Built where
  enums type hm := by
    obtain rfl := List.mem_singleton.mp hm
    exact describe_phoneType
  messages type hm := by
    obtain rfl := List.mem_singleton.mp hm
    cases packed <;> rfl
  closed := by cases packed <;> rfl

/-- The field of the sorts. -/
def sorts : Field where
  name := "types"
  tag := 1
  cardinality := .repeated
  kind := .enum phoneType.name
  packed := true

/-- Two sorts and an undeclared number in the middle, packed up to there. The last is padded. -/
def early : List Chunk :=
  [.packed [0x0A] [0x02] [⟨[], [0x01]⟩, ⟨[], [0x09]⟩], .apart [⟨[], [0x82, 0x00]⟩]]

/-- The same, packed from there on, with an empty run at the end. -/
def late : List Chunk :=
  [.apart [⟨[], [0x01]⟩], .packed [0x0A] [0x03] [⟨[], [0x09]⟩, ⟨[], [0x82, 0x00]⟩],
    .packed [0x0A] [0x00] []]

theorem recut_sorts : Chunk.Recut sorts early late := by
  refine ⟨?_, ?_, rfl⟩
  · simp only [early, List.forall_mem_cons, List.not_mem_nil, false_implies, implies_true, and_true]
    refine ⟨.packed ?_ rfl, .apart ?_⟩
    · simp only [List.forall_mem_cons, List.not_mem_nil, false_implies, implies_true, and_true]
      exact ⟨rfl, rfl⟩
    · exact List.forall_mem_singleton.mpr rfl
  · simp only [late, List.forall_mem_cons, List.not_mem_nil, false_implies, implies_true, and_true]
    refine ⟨.apart ?_, .packed ?_ rfl, .packed (by simp) rfl⟩
    · exact List.forall_mem_singleton.mpr rfl
    · simp only [List.forall_mem_cons, List.not_mem_nil, false_implies, implies_true, and_true]
      exact ⟨rfl, rfl⟩

/-- A household with a sort and an undeclared number. -/
def nextDoor : Record :=
  ⟨street true, household true, [(1, .repeated [.scalar (.enum 0)])],
    [(1, [⟨1, .varint, [0x08, 0x09]⟩])]⟩

/-- A household with two sorts, and that one next door. -/
def neighbours : Record :=
  ⟨street true, household true,
    [(1, .repeated [.scalar (.enum 1), .scalar (.enum 2)]), (2, .single (.message nextDoor))], []⟩

/-- The household next door is read, and the sorts of the other are added one by one. -/
theorem reachable_neighbours : neighbours.Reachable (street true) := by
  have read : Record.decode (street true) (household true).name [0x08, 0x00, 0x08, 0x09] {}
      = .ok nextDoor :=
    rfl
  have made : Record.make (street true) (household true).name
      = .ok (.empty (street true) (household true)) :=
    rfl
  have given : ∀ other ∈ (Edit.set 2 (.message nextDoor)).given,
      other.Reachable (street true) := by
    intro other ho
    obtain rfl := List.mem_singleton.mp ho
    exact .decoded read
  have scalars (value : Scalar) : ∀ other ∈ (Edit.append 1 (.scalar value)).given,
      other.Reachable (street true) := by
    intro other ho
    exact absurd ho List.not_mem_nil
  exact .edited [] (.edited [] (.edited [] (.made made) (scalars (.enum 1))) (scalars (.enum 2)))
    given

/-- The sorts in two forms, and the households under a schema in which sorts are not packed. -/
theorem decode_packed_or_apart_sorts
    : (∃ record,
        Record.decode (street true) (household true).name (Chunk.bytes sorts early) ⟨0, false⟩
          = .ok record
        ∧ Record.decode (street true) (household true).name (Chunk.bytes sorts late) ⟨0, false⟩
          = .ok record
        ∧ record.elements 1 = [.scalar (.enum 1), .scalar (.enum 2)]
        ∧ record.unknown.unitsAt 1 = [⟨1, .varint, [0x08, 0x09]⟩])
      ∧ ∃ read,
          Record.decode (street false) (household true).name neighbours.bytes ⟨1, false⟩ = .ok read
          ∧ read.unpacked = neighbours.unpacked
          ∧ ∀ third, read.same third = neighbours.same third := by
  obtain ⟨chunked, repacked⟩ := Record.decode_packed_or_apart (street_built true)
  have typed : (street true).message? (household true).name = some (household true) := rfl
  have declared : (household true).field? sorts.tag = some sorts := rfl
  have alike := chunked typed declared rfl rfl recut_sorts
  have values : (early.flatMap Chunk.elements).filterMap (sorts.valueOf? (street true))
      = [.scalar (.enum 1), .scalar (.enum 2)] :=
    rfl
  have kept : (early.flatMap Chunk.elements).filterMap (sorts.keptOf? (street true))
      = [⟨1, .varint, [0x08, 0x09]⟩] := by
    decide +kernel
  have hlen : neighbours.bytes.length < 2 ^ 63 := by decide +kernel
  have hdepth : neighbours.depth ≤ 1 := by decide
  have same : (street false).unpacked = (street true).unpacked := rfl
  refine ⟨?_, repacked same reachable_neighbours hlen hdepth⟩
  rw [← values, ← kept]
  exact alike.alone 0

end AddressBook

end TagWire
