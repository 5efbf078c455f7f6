import TagWire.Proofs.Decoding.Storing
import TagWire.Proofs.Decoding.Windows

/-!
The decoder does what the rules say. It reads one buffer through windows and writes into the record
that is there already; the rules cut out the bytes of every nested record and merge in the end.
-/

namespace TagWire

theorem Kind.isPackable_eq_isSome_reader? (kind : Kind)
    : kind.isPackable = kind.reader?.isSome := by
  cases kind <;> rfl

namespace Decoder

/-- A key is a varint whose number has a legal tag and names a wire kind. -/
theorem outcome?_key {cursor : Cursor} (hb : cursor.Bounded)
    : outcome? key cursor
      = (Varint.take? cursor.view).bind (fun token =>
          let (tag, code) := Key.split (Varint.value token.1)
          if tag = 0 ∨ maxTag < tag then none
          else (WireKind.ofCode? code).map (fun wire => ((tag, wire), cursor.leave token.2))) := by
  simp only [key, outcome?_bind, outcome?_look, outcome?_located, Option.bind_some,
    Cursor.outcome?_takeVarint hb]
  cases hk : Varint.take? cursor.view with
  | none => rfl
  | some token =>
      simp only [Option.map_some, Option.bind_some]
      split
      · simp
      · cases WireKind.ofCode? (Key.split (Varint.value token.1)).2 <;> simp

end Decoder

namespace Record

open Decoder Reference

variable {schema : Schema} {type : MessageType} {record : Record} {field : Field} {cursor : Cursor}

-----------------------------------------------------------------------------------------
-- Scalars and packed runs
-----------------------------------------------------------------------------------------

/-- What was read since an earlier place is the bytes that stood there. -/
theorem lookback_payload (hb : cursor.Bounded) {key after rest : Bytes} {payload : Payload}
    (hv : cursor.view = key ++ after) {wire : WireKind}
    (hp : wire.payload? after = some (payload, rest))
    : (cursor.leave rest).lookback cursor.offset = key ++ payload.bytes := by
  have hd : cursor.view = (key ++ payload.bytes) ++ rest := by
    rw [hv, wire.payload?_cuts.divides hp, List.append_assoc]
  exact hb.lookback_leave hd

/-- What comes of the payload of a wire kind that is cut off after a key: the record with what is
read of the payload, and the cursor behind it.
-/
def afterKey (schema : Schema) (type : MessageType) (record : Record) (cursor : Cursor)
    (wire : WireKind) (after : Bytes) (read? : Payload → Option Reading)
    : Option (Record × Cursor) :=
  (wire.payload? after).bind (fun cut =>
    (read? cut.1).map (fun reading =>
      (absorb schema type record reading, cursor.leave cut.2)))

section Payloads

variable {key after : Bytes}

theorem outcome?_readScalar (ofSchema : record.schema = schema)
    (hf : type.field? field.tag = some field) {reader : Read Scalar}
    (hr : field.kind.reader? = some reader) (hb : cursor.Bounded)
    (hv : cursor.view = key ++ after)
    : outcome? (record.readScalar field cursor.offset reader) (cursor.leave after)
      = afterKey schema type record cursor field.wireKind after (fun payload =>
          readScalar? schema field payload.content
            ⟨field.tag, field.wireKind, key ++ payload.bytes⟩) := by
  have hview : (cursor.leave after).view = after := hb.view_leave hv
  simp only [afterKey, readScalar, outcome?_bind, outcome?_here,
    Cursor.outcome?_reader (hb.leave after) hr, hview, Field.wireKind, Cursor.leave_leave]
  cases hp : field.kind.wireKind.payload? after with
  | none => rfl
  | some cut =>
      simp only [Option.bind_some, readScalar?]
      cases field.kind.scalar? cut.1.content with
      | none => rfl
      | some value =>
          simp only [Option.map_some, Option.bind_some, ofSchema]
          by_cases hu : schema.isUndeclared field.kind value
          · simp only [if_pos hu, outcome?_bind, outcome?_look, Option.bind_some, outcome?_pure,
              lookback_payload hb hv hp, keep_eq_absorb schema type]
          · simp only [if_neg hu, outcome?_pure, store_scalar_eq_absorb schema hf]

theorem outcome?_readString (hf : type.field? field.tag = some field)
    (hk : field.kind = .string) (hb : cursor.Bounded) (hv : cursor.view = key ++ after)
    : outcome? (record.readString field) (cursor.leave after)
      = afterKey schema type record cursor .lengthDelimited after (fun payload =>
          readScalar? schema field payload.content
            ⟨field.tag, .lengthDelimited, key ++ payload.bytes⟩) := by
  have hview : (cursor.leave after).view = after := hb.view_leave hv
  simp only [afterKey, readString, outcome?_bind, outcome?_look, outcome?_here, Option.bind_some,
    Cursor.outcome?_takeDelimited (hb.leave after), hview, readScalar?, hk, Kind.scalar?]
  cases WireKind.lengthDelimited.payload? after with
  | none => rfl
  | some cut =>
      simp only [Option.map_some, Option.bind_some, Cursor.leave_leave]
      cases String.fromUTF8? ⟨cut.1.content.toArray⟩ with
      | none => rfl
      | some text =>
          simp only [Option.map_some, outcome?_pure, store_scalar_eq_absorb schema hf,
            Schema.isUndeclared, Bool.false_eq_true, if_false]

theorem outcome?_readBytes (hf : type.field? field.tag = some field)
    (hk : field.kind = .bytes) (hb : cursor.Bounded) (hv : cursor.view = key ++ after)
    : outcome? (record.readBytes field) (cursor.leave after)
      = afterKey schema type record cursor .lengthDelimited after (fun payload =>
          readScalar? schema field payload.content
            ⟨field.tag, .lengthDelimited, key ++ payload.bytes⟩) := by
  have hview : (cursor.leave after).view = after := hb.view_leave hv
  simp only [afterKey, readBytes, outcome?_bind, outcome?_here,
    Cursor.outcome?_takeDelimited (hb.leave after), hview, readScalar?, hk, Kind.scalar?]
  cases WireKind.lengthDelimited.payload? after with
  | none => rfl
  | some cut =>
      simp only [Option.map_some, Option.bind_some, Cursor.leave_leave, outcome?_pure,
        store_scalar_eq_absorb schema hf, Schema.isUndeclared, Bool.false_eq_true, if_false]

theorem outcome?_readUnknown (schema : Schema) (type : MessageType) (hb : cursor.Bounded)
    (hv : cursor.view = key ++ after) (tag : Nat) (wire : WireKind)
    : outcome? (record.readUnknown cursor.offset tag wire) (cursor.leave after)
      = afterKey schema type record cursor wire after (fun payload =>
          some ⟨tag, [], [⟨tag, wire, key ++ payload.bytes⟩]⟩) := by
  have hview : (cursor.leave after).view = after := hb.view_leave hv
  simp only [afterKey, readUnknown, outcome?_bind, outcome?_here, outcome?_look,
    Cursor.outcome?_skip (hb.leave after), hview]
  cases hp : wire.payload? after with
  | none => rfl
  | some cut =>
      simp only [Option.map_some, Option.bind_some, Cursor.leave_leave, outcome?_pure,
        lookback_payload hb hv hp, keep_eq_absorb schema type]

end Payloads

theorem readElement_takes (ofSchema : record.schema = schema)
    (hf : type.field? field.tag = some field) {reader : Read Scalar}
    (hr : field.kind.reader? = some reader)
    : (record.readElement field reader).Takes field.wireKind.payload? (fun element =>
        (readElement? schema field element).map (absorb schema type record)) := by
  intro cursor hb
  have hv : cursor.view = [] ++ cursor.view := rfl
  simp only [readElement, outcome?_bind, outcome?_look, outcome?_here, Option.bind_some,
    Cursor.outcome?_reader hb hr, Field.wireKind, readElement?, readScalar?]
  cases hp : field.kind.wireKind.payload? cursor.view with
  | none => rfl
  | some cut =>
      simp only [Option.bind_some]
      cases field.kind.scalar? cut.1.content with
      | none => rfl
      | some value =>
          simp only [Option.map_some, Option.bind_some, ofSchema]
          by_cases hu : schema.isUndeclared field.kind value
          · simp only [if_pos hu, outcome?_bind, outcome?_look, Option.bind_some, outcome?_pure,
              lookback_payload hb hv hp, List.nil_append, keep_eq_absorb schema type]
          · simp only [if_neg hu, outcome?_pure, store_scalar_eq_absorb schema hf]

/-- The elements of a packed run are read one by one to its end. -/
theorem toEnd_readElement_usesUp (hc : record.Conforms schema) (same : record.type = type)
    (hf : type.field? field.tag = some field) (hpos : field.tag ≠ 0) (hmax : field.tag ≤ maxTag)
    {reader : Read Scalar} (hr : field.kind.reader? = some reader)
    : (toEnd (readElement field reader) record).UsesUp (fun bytes =>
        (cutAll? field.wireKind.payload? bytes).bind (fun elements =>
          elements.foldlM
            (fun record element =>
              (readElement? schema field element).map (absorb schema type record))
            record)) := by
  refine toEnd_usesUp field.wireKind.payload?_cuts
    (fun value (hv : value.Conforms schema ∧ value.type = type) =>
      readElement_takes hv.1.here.ofSchema hf hr)
    (fun value element next hv alone hn => ?_) ⟨hc, same⟩
  obtain ⟨reading, hread, rfl⟩ := Option.map_eq_some_iff.mp hn
  exact absorb_conforms hv.1 hv.2 (readElement?_fits hf hpos hmax alone hread).2

/-- A packed run is read element by element, and what the elements say is absorbed as one reading.
-/
theorem readRun_takes (hc : record.Conforms schema) (same : record.type = type)
    (hf : type.field? field.tag = some field) (hpos : field.tag ≠ 0) (hmax : field.tag ≤ maxTag)
    {reader : Read Scalar} (hr : field.kind.reader? = some reader)
    : (inWindow (toEnd (readElement field reader) record)).Takes WireKind.lengthDelimited.payload?
        (fun payload =>
          (readRun? schema field payload.content).map (absorb schema type record)) := by
  have typed : schema.message? type.name = some type := same ▸ hc.here.typed
  have fits {element : Payload}
      (alone : field.wireKind.payload? element.bytes = some (element, [])) {reading : Reading}
      (h : readElement? schema field element = some reading)
      : reading.tag = field.tag ∧ reading.Fits schema type :=
    readElement?_fits hf hpos hmax alone h
  have run := toEnd_readElement_usesUp hc same hf hpos hmax hr
  have absorbed : (toEnd (readElement field reader) record).UsesUp (fun bytes =>
      (readRun? schema field bytes).map (absorb schema type record)) := by
    apply run.congr
    intro bytes
    rw [readRun?]
    cases he : cutAll? field.wireKind.payload? bytes with
    | none => rfl
    | some elements =>
        have alone := (field.wireKind.payload?_cuts.of_cutAll? he).2
        rw [Option.bind_some, Option.bind_some, foldlM_absorb typed
          (fun element hm reading hread => (fits (alone element hm) hread).2) hc same]
        cases hm : elements.mapM (readElement? schema field) with
        | none => rfl
        | some readings =>
            have tags : ∀ reading ∈ readings, reading.tag = field.tag := by
              intro reading hr
              obtain ⟨element, hmem, hread⟩ := Traversal.exists_of_mem_mapM hm hr
              exact (fits (alone element hmem) hread).1
            rw [Option.map_some, Option.map_some, Option.map_some, absorb, gather_joined tags]
  exact absorbed.inWindow

-----------------------------------------------------------------------------------------
-- Units and records
-----------------------------------------------------------------------------------------

section Units

variable {nested : Field → String → Record → Decoder Record}
  {nested? : String → Bytes → Option Record}

/-- A step for nested payloads agrees with a decoder of their contents: it takes the payload off the
front, and what the decoder makes of the content is absorbed.
-/
def Agrees (schema : Schema) (type : MessageType)
    (nested : Field → String → Record → Decoder Record)
    (nested? : String → Bytes → Option Record)
    : Prop :=
  ∀ (field : Field) (name : String) (record : Record),
    record.Conforms schema
    → record.type = type
    → type.field? field.tag = some field
    → field.kind = .message name
    → (nested field name record).Takes WireKind.lengthDelimited.payload? (fun payload =>
        (nested? name payload.content).map (fun inner =>
          absorb schema type record ⟨field.tag, [.message inner], []⟩))

/-- A unit of the field's own wire kind is read as the kind of the field says. -/
theorem readKnown_own (start : Nat)
    : record.readKnown nested field field.wireKind start
      = (match field.kind.reader?, field.kind with
        | some reader, _ => record.readScalar field start reader
        | none, .message type => nested field type record
        | none, .string => record.readString field
        | none, _ => record.readBytes field) :=
  if_pos rfl

/-- A unit of another wire kind is read as a run, if the field may have one. -/
theorem readKnown_other {wire : WireKind} (start : Nat)
    : wire ≠ field.wireKind
      → record.readKnown nested field wire start
        = (match field.kind.reader?, wire, field.isRepeated with
          | some reader, .lengthDelimited, true =>
              inWindow (toEnd (readElement field reader) record)
          | _, _, _ =>
              throw (.wireMismatch record.type.name field.tag field.wireKind wire start)) :=
  fun hw => if_neg hw

theorem readKnown_reader {reader : Read Scalar} (hr : field.kind.reader? = some reader)
    (start : Nat)
    : record.readKnown nested field field.wireKind start
      = record.readScalar field start reader := by
  rw [readKnown_own, hr]

theorem readKnown_message {name : String} (hk : field.kind = .message name) (start : Nat)
    : record.readKnown nested field field.wireKind start = nested field name record := by
  rw [readKnown_own, hk]
  rfl

theorem readKnown_string (hk : field.kind = .string) (start : Nat)
    : record.readKnown nested field field.wireKind start = record.readString field := by
  rw [readKnown_own, hk]
  rfl

theorem readKnown_bytes (hk : field.kind = .bytes) (start : Nat)
    : record.readKnown nested field field.wireKind start = record.readBytes field := by
  rw [readKnown_own, hk]
  rfl

theorem readKnown_run {wire : WireKind} (hw : wire ≠ field.wireKind) (hd : wire = .lengthDelimited)
    (hrep : field.isRepeated = true) {reader : Read Scalar}
    (hr : field.kind.reader? = some reader) (start : Nat)
    : record.readKnown nested field wire start
      = inWindow (toEnd (readElement field reader) record) := by
  subst hd
  rw [readKnown_other start hw, hr, hrep]

theorem readKnown_refused {wire : WireKind} (hw : wire ≠ field.wireKind)
    (hrun : ¬ (wire = .lengthDelimited ∧ field.isRepeated ∧ field.kind.isPackable)) (start : Nat)
    : record.readKnown nested field wire start
      = throw (.wireMismatch record.type.name field.tag field.wireKind wire start) := by
  rw [Kind.isPackable_eq_isSome_reader?] at hrun
  rw [readKnown_other start hw]
  cases hr : field.kind.reader? with
  | none => rfl
  | some reader => cases wire <;> cases hrep : field.isRepeated <;> simp [hr, hrep] at hrun ⊢

section Declared

variable {tag : Nat} {wire : WireKind} {key after : Bytes}

/-- Once its key is read, a declared unit of the wire kind of its field is read as the rules say. -/
theorem outcome?_readOwn (agrees : Agrees schema type nested nested?)
    (hc : record.Conforms schema) (same : record.type = type)
    (hf : type.field? tag = some field) (hw : wire = field.wireKind)
    (hb : cursor.Bounded) (hv : cursor.view = key ++ after)
    : outcome? (record.readKnown nested field wire cursor.offset) (cursor.leave after)
      = afterKey schema type record cursor wire after (fun payload =>
          readUnit? nested? schema type ⟨tag, wire, key, payload⟩) := by
  obtain rfl := MessageType.tag_of_field? hf
  subst hw
  have asScalar (hm : field.kind.message? = none) (payload : Payload)
      : readUnit? nested? schema type ⟨field.tag, field.wireKind, key, payload⟩
        = readScalar? schema field payload.content
            ⟨field.tag, field.wireKind, key ++ payload.bytes⟩ :=
    readUnit?_scalar hf rfl hm
  cases hk : field.kind
  case message name =>
    have hd : field.wireKind = .lengthDelimited := by rw [Field.wireKind, hk]; rfl
    have hread := agrees field name record hc same hf hk
    rw [readKnown_message hk, hread.outcome?_leave hb hv, afterKey, hd]
    cases WireKind.lengthDelimited.payload? after with
    | none => rfl
    | some cut =>
        rw [Option.bind_some, Option.bind_some, readUnit?_message hf hd.symm hk]
        cases nested? name cut.1.content <;> rfl
  case string =>
    have hd : field.wireKind = .lengthDelimited := by rw [Field.wireKind, hk]; rfl
    simp only [readKnown_string hk, asScalar (by rw [hk]; rfl)]
    rw [hd]
    exact outcome?_readString hf hk hb hv
  case bytes =>
    have hd : field.wireKind = .lengthDelimited := by rw [Field.wireKind, hk]; rfl
    simp only [readKnown_bytes hk, asScalar (by rw [hk]; rfl)]
    rw [hd]
    exact outcome?_readBytes hf hk hb hv
  all_goals
    simp only [readKnown_reader (by rw [hk]; rfl), asScalar (by rw [hk]; rfl)]
    exact outcome?_readScalar hc.here.ofSchema hf (by rw [hk]; rfl) hb hv

/-- A declared unit of another wire kind is a packed run of a repeated field, or is refused. -/
theorem outcome?_readOther (hc : record.Conforms schema) (same : record.type = type)
    (hpos : tag ≠ 0) (hmax : tag ≤ maxTag)
    (hf : type.field? tag = some field) (hw : wire ≠ field.wireKind)
    (hb : cursor.Bounded) (hv : cursor.view = key ++ after)
    : outcome? (record.readKnown nested field wire cursor.offset) (cursor.leave after)
      = afterKey schema type record cursor wire after (fun payload =>
          readUnit? nested? schema type ⟨tag, wire, key, payload⟩) := by
  obtain rfl := MessageType.tag_of_field? hf
  have others (payload : Payload)
      : readUnit? nested? schema type ⟨field.tag, wire, key, payload⟩
        = if wire = .lengthDelimited ∧ field.isRepeated ∧ field.kind.isPackable then
            readRun? schema field payload.content
          else none :=
    readUnit?_other hf hw
  simp only [others]
  by_cases hrun : wire = .lengthDelimited ∧ field.isRepeated ∧ field.kind.isPackable
  · rcases hrun with ⟨hd, hrep, hrunnable⟩
    have hpack := hrunnable
    rw [Kind.isPackable_eq_isSome_reader?] at hpack
    obtain ⟨reader, hr⟩ := Option.isSome_iff_exists.mp hpack
    have hread := readRun_takes hc same hf hpos hmax hr
    rw [readKnown_run hw hd hrep hr, hread.outcome?_leave hb hv, afterKey, hd]
    cases WireKind.lengthDelimited.payload? after with
    | none => rfl
    | some cut =>
        rw [Option.bind_some, Option.bind_some, if_pos ⟨rfl, hrep, hrunnable⟩]
        cases readRun? schema field cut.1.content <;> rfl
  · rw [readKnown_refused hw hrun]
    simp only [afterKey, if_neg hrun, Option.map_none]
    cases wire.payload? after <;> rfl

/-- Once its key is read, any unit is read as the rules say. -/
theorem outcome?_readPayload (wire : WireKind) (agrees : Agrees schema type nested nested?)
    (hc : record.Conforms schema) (same : record.type = type) (hpos : tag ≠ 0)
    (hmax : tag ≤ maxTag) (hb : cursor.Bounded) (hv : cursor.view = key ++ after)
    : outcome?
        (match record.type.field? tag with
          | some field => record.readKnown nested field wire cursor.offset
          | none => record.readUnknown cursor.offset tag wire)
        (cursor.leave after)
      = afterKey schema type record cursor wire after (fun payload =>
          readUnit? nested? schema type ⟨tag, wire, key, payload⟩) := by
  rw [same]
  cases hf : type.field? tag with
  | none =>
      have others (payload : Payload)
          : readUnit? nested? schema type ⟨tag, wire, key, payload⟩
            = some ⟨tag, [], [⟨tag, wire, key ++ payload.bytes⟩]⟩ :=
        readUnit?_undeclared hf
      simp only [others]
      exact outcome?_readUnknown schema type hb hv tag wire
  | some field =>
      by_cases hw : wire = field.wireKind
      · exact outcome?_readOwn agrees hc same hf hw hb hv
      · exact outcome?_readOther hc same hpos hmax hf hw hb hv

end Declared

theorem readUnit_takes (agrees : Agrees schema type nested nested?)
    (hc : record.Conforms schema) (same : record.type = type)
    : (record.readUnit nested).Takes WireUnit.first? (fun unit =>
        (readUnit? nested? schema type unit).map (absorb schema type record)) := by
  intro cursor hb
  simp only [readUnit, outcome?_bind, outcome?_look, Option.bind_some, outcome?_key hb,
    WireUnit.first?]
  cases hk : Varint.take? cursor.view with
  | none => rfl
  | some token =>
      rcases token with ⟨key, after⟩
      have hv : cursor.view = key ++ after := Varint.take?_cuts.divides hk
      simp only [Option.bind_some]
      by_cases hlegal : (Key.split (Varint.value key)).1 = 0
          ∨ maxTag < (Key.split (Varint.value key)).1
      · simp only [if_pos hlegal, Option.bind_none]
      · simp only [if_neg hlegal]
        cases hwire : WireKind.ofCode? (Key.split (Varint.value key)).2 with
        | none => rfl
        | some wire =>
            have hread := outcome?_readPayload wire agrees hc same
              (fun h0 => hlegal (.inl h0)) (Nat.not_lt.mp (fun hlt => hlegal (.inr hlt))) hb hv
            simp only [Option.map_some, Option.bind_some]
            rw [afterKey] at hread
            refine hread.trans ?_
            cases wire.payload? after with
            | none => rfl
            | some cut => simp only [Option.bind_some, Option.map_some, Option.map_map]; rfl

/-- A record of a type is still one after a unit that it reads. -/
theorem conforms_of_readUnit? (sound : Reference.Sound schema nested?) {unit : WireUnit}
    (standing : unit.Standing) {next : Record}
    (hc : record.Conforms schema ∧ record.type = type)
    (h : (readUnit? nested? schema type unit).map (absorb schema type record) = some next)
    : next.Conforms schema ∧ next.type = type := by
  obtain ⟨reading, hread, rfl⟩ := Option.map_eq_some_iff.mp h
  exact absorb_conforms hc.1 hc.2 (readUnit?_fits sound standing hread).2

/-- Units read to the end are merged into the record as the record that they make up. -/
theorem toEnd_readUnit_usesUp (agrees : Agrees schema type nested nested?)
    (sound : Reference.Sound schema nested?) (hc : record.Conforms schema)
    (same : record.type = type)
    : (toEnd (readUnit nested) record).UsesUp (fun bytes =>
        (decodeBody? nested? schema type bytes).map record.overlay) := by
  have typed : schema.message? type.name = some type := same ▸ hc.here.typed
  have run : (toEnd (readUnit nested) record).UsesUp (fun bytes =>
      (WireUnit.units? bytes).bind (fun units =>
        units.foldlM
          (fun record unit => (readUnit? nested? schema type unit).map (absorb schema type record))
          record)) :=
    toEnd_usesUp WireUnit.first?_cuts
      (fun value (hv : value.Conforms schema ∧ value.type = type) =>
        readUnit_takes agrees hv.1 hv.2)
      (fun value unit next hv alone hn => conforms_of_readUnit? sound alone hv hn) ⟨hc, same⟩
  apply run.congr
  intro bytes
  rw [decodeBody?]
  cases hu : WireUnit.units? bytes with
  | none => rfl
  | some units =>
      have standing := WireUnit.standing_of_units? hu
      rw [Option.bind_some, Option.bind_some, foldlM_absorb typed
        (fun unit hm reading hread => (readUnit?_fits sound (standing unit hm) hread).2) hc same,
        Option.map_map]
      rfl

end Units

-----------------------------------------------------------------------------------------
-- Levels
-----------------------------------------------------------------------------------------

/-- A nested payload is read into a record of its own type. -/
theorem nestedStart_conforms (hc : record.Conforms schema)
    (hf : record.type.field? field.tag = some field) {name : String}
    (hk : field.kind = .message name) {inner : MessageType}
    (hm : schema.message? name = some inner)
    : (record.nestedStart field (.empty schema inner)).Conforms schema
      ∧ (record.nestedStart field (.empty schema inner)).type = inner := by
  have hempty := empty_conforms hm
  rw [nestedStart]
  split
  · next held hs =>
      split
      · exact ⟨hempty, rfl⟩
      · have hv := (hc.slot_of_field hs hf).value (List.mem_singleton_self _)
        have hheld := hv.nested held rfl
        have hname := Schema.name_of_message? hm
        have hheldName : held.type.name = name := by
          simpa using hv.fits.kind_eq.symm.trans hk
        exact ⟨hheld, hheld.type_eq hempty (hheldName.trans hname.symm)⟩
  · exact ⟨hempty, rfl⟩

/-- A conforming record has room for the nested records that its fields take. -/
theorem hasRoom_of_conforms (hc : record.Conforms schema)
    (hf : record.type.field? field.tag = some field) {name : String}
    (hk : field.kind = .message name)
    : record.hasRoom field = true := by
  rw [hasRoom]
  split
  · rfl
  · next values hs => exact (hc.slot_of_field hs hf).isRepeated.1
  · next held hs => simp [(hc.slot_of_field hs hf).singular]
  · next scalar hs =>
      have hv := (hc.slot_of_field hs hf).value (List.mem_singleton_self _)
      obtain ⟨held, he, _⟩ := Value.Fits.exists_record (hk ▸ hv.fits)
      simp at he

/-- If records of some levels are read as the rules say, so are the payloads they stand in. -/
theorem readNested_agrees {levels : Nat} {inner : Record → Decoder Record}
    (h
      : ∀ (start : Record),
          start.Conforms schema
          → (inner start).UsesUp (fun bytes =>
              (decodeBody? (decodeWithin? schema levels) schema start.type bytes).map
                start.overlay))
    : Agrees schema type (fun field name => readNested field name inner)
        (decodeWithin? schema (levels + 1)) := by
  intro field name record hc same hf hk cursor hb
  simp only [readNested, outcome?_bind, outcome?_pure, hc.here.ofSchema]
  cases hm : schema.message? name with
  | none =>
      have hfail : (throw (.unknownMessage name) : Decoder Record).UsesUp (fun _ => none) :=
        fun _ _ => rfl
      simp only [make, hm, decodeWithin?, Option.bind_none, Option.map_none]
      rw [hfail.inWindow cursor hb]
      cases WireKind.lengthDelimited.payload? cursor.view <;> rfl
  | some innerType =>
      obtain ⟨hstart, hstartType⟩ := nestedStart_conforms hc (same ▸ hf) hk hm
      have hbody := (h _ hstart).inWindow
      simp only [make, hm, decodeWithin?, Option.bind_some,
        hasRoom_of_conforms hc (same ▸ hf) hk, if_true]
      rw [hbody cursor hb, hstartType]
      cases WireKind.lengthDelimited.payload? cursor.view with
      | none => rfl
      | some cut =>
          simp only [Option.bind_some]
          cases hd : decodeBody? (decodeWithin? schema levels) schema innerType cut.1.content with
          | none => rfl
          | some read =>
              obtain ⟨hread, hreadType⟩ := decodeBody?_conforms (decodeWithin?_sound levels) hm hd
              have hstore := store_message_eq_absorb hf record hread
              rw [hreadType] at hstore
              simp only [Option.map_some, Option.bind_some, hstore]

/-- Where no more levels are left, no record is read, and none is by the rules. -/
theorem recursionLimit_agrees (limit : Nat)
    : Agrees schema type (fun _ _ _ => throw (.recursionLimit limit)) (decodeWithin? schema 0) := by
  intro field name record _ _ _ _ cursor hb
  simp only [outcome?_throw, decodeWithin?, Option.map_none]
  cases WireKind.lengthDelimited.payload? cursor.view <;> rfl

/-- Units are read as the rules say, by induction on the levels that records may take up. -/
theorem readUnits_usesUp (limit levels : Nat) {record : Record} (hc : record.Conforms schema)
    : (record.readUnits limit levels).UsesUp (fun bytes =>
        (decodeBody? (decodeWithin? schema levels) schema record.type bytes).map
          record.overlay) := by
  induction levels generalizing record with
  | zero =>
      exact toEnd_readUnit_usesUp (recursionLimit_agrees limit) (decodeWithin?_sound 0) hc rfl
  | succ levels ih =>
      exact toEnd_readUnit_usesUp (readNested_agrees (fun start hs => ih hs))
        (decodeWithin?_sound (levels + 1)) hc rfl

/-- Reading a buffer into an empty record gives what the rules make of it. -/
theorem readAll_eq {name : String} (typed : schema.message? name = some type) (bytes : Bytes)
    (limit : Nat)
    : ((empty schema type).readAll bytes limit).toOption
      = decode? schema limit name bytes := by
  have hempty := empty_conforms typed
  have hread := readUnits_usesUp limit limit hempty (.ofBytes bytes) (Cursor.ofBytes_bounded bytes)
  rw [Cursor.view_ofBytes] at hread
  have hout : ((empty schema type).readAll bytes limit).toOption
      = (outcome? ((empty schema type).readUnits limit limit) (.ofBytes bytes)).map Prod.fst := by
    rw [readAll, outcome?]
    cases (empty schema type).readUnits limit limit (.ofBytes bytes) <;> rfl
  rw [hout, hread, decode?, decodeWithin?, typed, Option.bind_some, empty_type, Option.map_map,
    Option.map_map]
  cases hd : decodeBody? (decodeWithin? schema limit) schema type bytes with
  | none => rfl
  | some record =>
      obtain ⟨hrecord, rfl⟩ := decodeBody?_conforms (decodeWithin?_sound limit) typed hd
      exact congrArg some (empty_overlay hrecord)

/-- To decode is to read all bytes, and then perhaps to ask for required fields. -/
theorem decode_eq_of_message? {name : String} (typed : schema.message? name = some type)
    (bytes : Bytes) (options : DecodeOptions)
    : decode schema name bytes options
      = match (empty schema type).readAll bytes options.recursionLimit with
        | .error error => .error error
        | .ok read =>
            if options.checkRequired && !read.isComplete then
              .error (.missingRequired name read.missingPaths)
            else .ok read := by
  simp only [decode, typed, Bind.bind, Except.bind]
  cases (empty schema type).readAll bytes options.recursionLimit with
  | error error => rfl
  | ok read =>
      simp only
      split <;> rfl

theorem decode_eq_readAll {name : String} (typed : schema.message? name = some type)
    (bytes : Bytes) (limit : Nat)
    : decode schema name bytes ⟨limit, false⟩ = (empty schema type).readAll bytes limit := by
  rw [decode_eq_of_message? typed]
  cases (empty schema type).readAll bytes limit <;> rfl

/-- Decoding bytes gives a record exactly if the rules make one of them, and gives that one: units
are cut off from left to right and read alone, a nested record is decoded from its own bytes with
one level less, and what is said for a tag is put together in order of arrival.
-/
theorem decode_eq_reference (schema : Schema) (name : String) (bytes : Bytes) (limit : Nat)
    : (decode schema name bytes ⟨limit, false⟩).toOption
      = Reference.decode? schema limit name bytes := by
  cases typed : schema.message? name with
  | none =>
      simp only [decode, decode?, decodeWithin?, typed, Option.bind_none]
      rfl
  | some type => rw [decode_eq_readAll typed, readAll_eq typed]

end Record

end TagWire
