import TagWire.Proofs.Decoding.Rereading
import TagWire.Proofs.Schemas.Extension

/-!
Two schemas read a unit alike if both declare its field the same way on the wire.
-/

namespace TagWire

namespace Reference

variable {wide narrow : Schema} {wider type : MessageType} {nested : String → Bytes → Option Record}

section Alike

variable {field other : Field} (same : field.SameWire other)
  (numbers
    : ∀ value, wide.isUndeclared field.kind value = narrow.isUndeclared field.kind value)

include same

theorem slotOf?_alike (values : List Value) : slotOf? other values = slotOf? field values := by
  cases values with
  | nil => rfl
  | cons first rest => rw [slotOf?, slotOf?, same.isRepeated]

include numbers

theorem readScalar?_alike (content : Bytes) (whole : RawUnit)
    : readScalar? wide other content whole = readScalar? narrow field content whole := by
  simp only [readScalar?, same.kind, same.tag, numbers]

theorem readRun?_alike (run : Bytes)
    : readRun? wide other run = readRun? narrow field run := by
  have helement : readElement? wide other = readElement? narrow field := by
    funext element
    simp only [readElement?, readScalar?_alike same numbers, same.tag]
  simp only [readRun?, same.wireKind, same.tag, helement]

end Alike

/-- With one decoder for nested records, a unit of a field that the older schema declares says the
same under both.
-/
theorem readUnit?_alike (ext : wide.Extends narrow) {name : String}
    (typed : narrow.message? name = some type) (covers : wider.Covers type) {unit : WireUnit}
    {field : Field} (hf : type.field? unit.tag = some field)
    : readUnit? nested wide wider unit = readUnit? nested narrow type unit := by
  obtain ⟨other, ho, same⟩ := covers hf
  have numbers := ext.isUndeclared typed hf
  -- One value, a record or not, or else a packed run.
  by_cases hw : unit.wire = field.wireKind
  · have hwo : unit.wire = other.wireKind := hw.trans same.wireKind.symm
    cases hm : field.kind.message? with
    | none =>
        rw [readUnit?_scalar ho hwo (same.kind ▸ hm), readUnit?_scalar hf hw hm,
          readScalar?_alike same numbers]
    | some target =>
        have hk : field.kind = .message target := Kind.eq_message_of_message? hm
        rw [readUnit?_message ho hwo (same.kind.trans hk), readUnit?_message hf hw hk, same.tag]
  · have hwo : unit.wire ≠ other.wireKind := same.wireKind ▸ hw
    rw [readUnit?_other ho hwo, readUnit?_other hf hw, same.isRepeated, same.kind,
      readRun?_alike same numbers]

/-- What a unit of a field without records says does not depend on how records are decoded. -/
theorem readUnit?_nested {schema : Schema} {unit : WireUnit} {field : Field}
    (hf : type.field? unit.tag = some field) (hm : field.kind.message? = none)
    (another : String → Bytes → Option Record)
    : readUnit? nested schema type unit = readUnit? another schema type unit := by
  by_cases hw : unit.wire = field.wireKind
  · rw [readUnit?_scalar hf hw hm, readUnit?_scalar hf hw hm]
  · rw [readUnit?_other hf hw, readUnit?_other hf hw]

/-- Units of one field that both schemas declare say the same under both. -/
theorem Says.widen (ext : wide.Extends narrow) {name : String}
    (typed : narrow.message? name = some type) (covers : wider.Covers type)
    {units : List WireUnit} {values : List Value} {kept : List RawUnit}
    (declared : ∀ unit ∈ units, ∃ field, type.field? unit.tag = some field)
    : Says nested wide wider units values kept ↔ Says nested narrow type units values kept := by
  have hsame : units.mapM (readUnit? nested wide wider)
      = units.mapM (readUnit? nested narrow type) := by
    apply Traversal.mapM_congr
    intro unit hu
    obtain ⟨field, hf⟩ := declared unit hu
    exact readUnit?_alike ext typed covers hf
  rw [Says, hsame, Says]

/-- A unit of a field of messages says the record that its content is decoded to. -/
theorem exists_record_of_readUnit? {schema : Schema} {unit : WireUnit} {field : Field}
    (hf : type.field? unit.tag = some field) {target : String} (hk : field.kind = .message target)
    {reading : Reading} (h : readUnit? nested schema type unit = some reading)
    : unit.wire = field.wireKind
      ∧ ∃ record,
          nested target unit.payload.content = some record
          ∧ reading = ⟨field.tag, [.message record], []⟩ := by
  by_cases hw : unit.wire = field.wireKind
  · rw [readUnit?_message hf hw hk] at h
    obtain ⟨record, hrecord, rfl⟩ := Option.map_eq_some_iff.mp h
    exact ⟨hw, record, hrecord, rfl⟩
  · simp [readUnit?_other hf hw, hk, Kind.isPackable, Kind.wireKind] at h

/-- The units of a field of messages say the records that their contents are decoded to. -/
theorem Says.records {schema : Schema} {units : List WireUnit} {values : List Value}
    {kept : List RawUnit} (h : Says nested schema type units values kept) {tag : Nat}
    (htag : ∀ unit ∈ units, unit.tag = tag) {field : Field} (hf : type.field? tag = some field)
    {target : String} (hk : field.kind = .message target)
    : ∃ records,
        (units.map (fun unit => unit.payload.content)).mapM (nested target) = some records
        ∧ values = records.map .message
        ∧ kept = [] := by
  rcases h with ⟨readings, hr, rfl, rfl⟩
  induction units generalizing readings with
  | nil =>
      obtain rfl : [] = readings := Option.some.inj hr
      exact ⟨[], rfl, rfl, rfl⟩
  | cons unit rest ih =>
      obtain ⟨first, others, hfirst, hrest, rfl⟩ := Traversal.mapM_cons_eq_some_iff.mp hr
      obtain ⟨records, hrecords, hvalues, hkept⟩ :=
        ih (fun other ho => htag other (by simp [ho])) others hrest
      obtain rfl := htag unit (by simp)
      obtain ⟨_, record, hrecord, rfl⟩ := exists_record_of_readUnit? hf hk hfirst
      refine ⟨record :: records, ?_, ?_, ?_⟩
      · exact Traversal.mapM_cons_eq_some_iff.mpr ⟨record, records, hrecord, hrecords, rfl⟩
      · rw [List.flatMap_cons, hvalues]
        rfl
      · rw [List.flatMap_cons, hkept]
        rfl

/-- Records of a singular field, one after the other, come to their merge. -/
theorem foldl_later_message (record : Record) (records : List Record)
    : (records.map Value.message).foldl later (.message record)
      = .message (records.foldl Record.overlay record) := by
  induction records generalizing record with
  | nil => rfl
  | cons next rest ih => exact ih (record.overlay next)

end Reference

end TagWire
