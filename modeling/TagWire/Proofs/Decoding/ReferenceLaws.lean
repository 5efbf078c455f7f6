import TagWire.Proofs.Decoding.Gathering

/-!
Decoding by the rules gives conforming records, and decoding two stretches of bytes in a row gives
the merge of what each gives.
-/

namespace TagWire

/-- Only numbers of enumerations can be undeclared, and these are varints. -/
theorem Schema.wireKind_of_isUndeclared {schema : Schema} {kind : Kind} {value : Scalar}
    (h : schema.isUndeclared kind value = true)
    : kind.wireKind = .varint := by
  cases kind <;> first | rfl | simp [isUndeclared] at h

/-- What a content spells for a kind is of that kind. -/
theorem Kind.isOfKind_of_scalar? {kind : Kind} {content : Bytes} {value : Scalar}
    (h : kind.scalar? content = some value)
    : value.isOfKind kind = true := by
  cases kind with
  | string =>
      obtain ⟨text, _, rfl⟩ := Option.map_eq_some_iff.mp h
      rfl
  | message name => simp [scalar?] at h
  | _ =>
      obtain rfl := Option.some.inj h
      rfl

theorem Kind.eq_message_of_message? {kind : Kind} {name : String} (h : kind.message? = some name)
    : kind = .message name := by
  cases kind with
  | message target => rw [Option.some.inj h]
  | _ => simp [message?] at h

theorem WireUnit.Standing.tag_legal {unit : WireUnit} (h : unit.Standing)
    : unit.tag ≠ 0 ∧ unit.tag ≤ maxTag := by
  obtain ⟨_, _, _, hlegal, _⟩ := first?_eq_some_iff.mp h
  omega

namespace Reference

variable {schema : Schema} {type : MessageType}

section ByField

variable {nested : String → Bytes → Option Record} {unit : WireUnit} {field : Field}

theorem readUnit?_undeclared (hf : type.field? unit.tag = none)
    : readUnit? nested schema type unit = some ⟨unit.tag, [], [unit.raw]⟩ := by
  simp only [readUnit?, hf]

theorem readUnit?_scalar (hf : type.field? unit.tag = some field)
    (hw : unit.wire = field.wireKind) (hm : field.kind.message? = none)
    : readUnit? nested schema type unit
      = readScalar? schema field unit.payload.content unit.raw := by
  simp only [readUnit?, hf, if_pos hw]
  split
  · next name hk => simp [hk, Kind.message?] at hm
  · rfl

theorem readUnit?_message (hf : type.field? unit.tag = some field)
    (hw : unit.wire = field.wireKind) {name : String} (hk : field.kind = .message name)
    : readUnit? nested schema type unit
      = (nested name unit.payload.content).map (fun record =>
          ⟨field.tag, [.message record], []⟩) := by
  simp only [readUnit?, hf, if_pos hw, hk]

theorem readUnit?_other (hf : type.field? unit.tag = some field)
    (hw : unit.wire ≠ field.wireKind)
    : readUnit? nested schema type unit
      = if unit.wire = .lengthDelimited ∧ field.isRepeated ∧ field.kind.isPackable then
          readRun? schema field unit.payload.content
        else none := by
  simp only [readUnit?, hf, if_neg hw]

end ByField

theorem readScalar?_fits {field : Field} {content : Bytes} {whole : RawUnit} {reading : Reading}
    (hf : type.field? field.tag = some field) (htag : whole.tag = field.tag)
    (hkeep
      : ∀ value,
          field.kind.scalar? content = some value
          → schema.isUndeclared field.kind value = true
          → whole.Keepable schema type)
    (h : readScalar? schema field content whole = some reading)
    : reading.tag = field.tag ∧ reading.Fits schema type := by
  obtain ⟨value, hv, rfl⟩ := Option.map_eq_some_iff.mp h
  split
  · next hu =>
      refine ⟨rfl, by simp, ?_, ?_⟩
      · rintro unit hm
        rwa [List.mem_singleton.mp hm]
      · rintro unit hm
        rw [List.mem_singleton.mp hm]
        exact hkeep value hv hu
  · next hu =>
      refine ⟨rfl, ?_, by simp, by simp⟩
      rintro value hm
      rw [List.mem_singleton.mp hm]
      exact ⟨field, hf, .scalar (Kind.isOfKind_of_scalar? hv) (by simpa using hu)⟩

/-- An element of a run is cut off alone, so with a key of its own it is a whole unit. -/
theorem readElement?_fits {field : Field} (hf : type.field? field.tag = some field)
    (hpos : field.tag ≠ 0) (hmax : field.tag ≤ maxTag) {element : Payload}
    (alone : field.wireKind.payload? element.bytes = some (element, [])) {reading : Reading}
    (h : readElement? schema field element = some reading)
    : reading.tag = field.tag ∧ reading.Fits schema type := by
  refine readScalar?_fits hf rfl (fun value hv hu => ?_) h
  -- Only a number of an enumeration is ever kept, so the key of a varint is the right one.
  have hw : field.wireKind = .varint := Schema.wireKind_of_isUndeclared hu
  have hstanding := WireUnit.standing_of_payload hpos hmax (hw ▸ alone)
  exact ⟨⟨field.tag, .varint, _, element⟩, hstanding, rfl, .inr ⟨field, value, hf, hw.symm, hv, hu⟩⟩

theorem readRun?_fits {field : Field} {run : Bytes} {reading : Reading}
    (hf : type.field? field.tag = some field) (hpos : field.tag ≠ 0) (hmax : field.tag ≤ maxTag)
    (h : readRun? schema field run = some reading)
    : reading.tag = field.tag ∧ reading.Fits schema type := by
  obtain ⟨elements, he, h⟩ := Option.bind_eq_some_iff.mp h
  obtain ⟨readings, hr, rfl⟩ := Option.map_eq_some_iff.mp h
  have alone := (field.wireKind.payload?_cuts.of_cutAll? he).2
  have each : ∀ reading ∈ readings, reading.tag = field.tag ∧ reading.Fits schema type := by
    intro reading hm
    obtain ⟨element, hmem, hread⟩ := Traversal.exists_of_mem_mapM hr hm
    exact readElement?_fits hf hpos hmax (alone element hmem) hread
  refine ⟨rfl, fun value hv => ?_, fun unit hu => ?_, fun unit hu => ?_⟩
  · obtain ⟨reading, hm, hv⟩ := List.mem_flatMap.mp hv
    obtain ⟨ht, fits⟩ := each reading hm
    exact ht ▸ fits.values value hv
  · obtain ⟨reading, hm, hu⟩ := List.mem_flatMap.mp hu
    obtain ⟨ht, fits⟩ := each reading hm
    exact (fits.filed unit hu).trans ht
  · obtain ⟨reading, hm, hu⟩ := List.mem_flatMap.mp hu
    exact (each reading hm).2.keepable unit hu

/-- A decoder gives conforming records of the types it is asked for. -/
def Sound (schema : Schema) (nested : String → Bytes → Option Record) : Prop :=
  ∀ {name bytes record},
    nested name bytes = some record → record.Conforms schema ∧ record.type.name = name

theorem readUnit?_fits {nested : String → Bytes → Option Record} (hn : Sound schema nested)
    {unit : WireUnit} (hs : unit.Standing) {reading : Reading}
    (h : readUnit? nested schema type unit = some reading)
    : reading.tag = unit.tag ∧ reading.Fits schema type := by
  unfold readUnit? at h
  split at h
  · next hf =>
      obtain rfl := Option.some.inj h
      refine ⟨rfl, by simp, ?_, ?_⟩
      · rintro kept hm
        rw [List.mem_singleton.mp hm]
        rfl
      · rintro kept hm
        rw [List.mem_singleton.mp hm]
        exact ⟨unit, hs, rfl, .inl hf⟩
  · next field hf =>
      have htag := MessageType.tag_of_field? hf
      rw [← htag] at hf ⊢
      split at h
      · next hw =>
          split at h
          · next name hk =>
              obtain ⟨record, hr, rfl⟩ := Option.map_eq_some_iff.mp h
              obtain ⟨hc, hname⟩ := hn hr
              refine ⟨rfl, ?_, by simp, by simp⟩
              rintro value hm
              rw [List.mem_singleton.mp hm]
              exact ⟨field, hf, hk ▸ hname ▸ .message hc⟩
          · refine readScalar?_fits hf htag.symm (fun value hv hu => ?_) h
            exact ⟨unit, hs, rfl, .inr ⟨field, value, htag ▸ hf, hw, hv, hu⟩⟩
      · split at h
        · obtain ⟨hpos, hmax⟩ := hs.tag_legal
          exact readRun?_fits hf (htag ▸ hpos) (htag ▸ hmax) h
        · simp at h

theorem readUnits_fit {nested : String → Bytes → Option Record} (hn : Sound schema nested)
    {units : List WireUnit} (hs : ∀ unit ∈ units, unit.Standing) {readings : List Reading}
    (h : units.mapM (readUnit? nested schema type) = some readings)
    : ∀ reading ∈ readings, reading.Fits schema type := by
  intro reading hr
  obtain ⟨unit, hu, hread⟩ := Traversal.exists_of_mem_mapM h hr
  exact (readUnit?_fits hn (hs unit hu) hread).2

theorem decodeBody?_eq_some_iff {nested : String → Bytes → Option Record} {bytes : Bytes}
    {record : Record}
    : decodeBody? nested schema type bytes = some record
      ↔ ∃ units readings,
          WireUnit.units? bytes = some units
          ∧ units.mapM (readUnit? nested schema type) = some readings
          ∧ gather schema type readings = record := by
  simp only [decodeBody?, Option.bind_eq_some_iff, Option.map_eq_some_iff]
  constructor
  · rintro ⟨units, hu, readings, hr, he⟩
    exact ⟨units, readings, hu, hr, he⟩
  · rintro ⟨units, readings, hu, hr, he⟩
    exact ⟨units, hu, readings, hr, he⟩

theorem decodeBody?_conforms {nested : String → Bytes → Option Record} (hn : Sound schema nested)
    {name : String} (typed : schema.message? name = some type) {bytes : Bytes} {record : Record}
    (h : decodeBody? nested schema type bytes = some record)
    : record.Conforms schema ∧ record.type = type := by
  obtain ⟨units, readings, hu, hr, rfl⟩ := decodeBody?_eq_some_iff.mp h
  exact ⟨gather_conforms typed (readUnits_fit hn (WireUnit.standing_of_units? hu) hr), rfl⟩

/-- Decoding gives conforming records, by induction on the levels they may take up. -/
theorem decodeWithin?_sound (levels : Nat) : Sound schema (decodeWithin? schema levels) := by
  induction levels with
  | zero =>
      intro name bytes record h
      simp [decodeWithin?] at h
  | succ levels ih =>
      intro name bytes record h
      obtain ⟨type, typed, h⟩ := Option.bind_eq_some_iff.mp h
      obtain ⟨hc, rfl⟩ := decodeBody?_conforms ih typed h
      exact ⟨hc, Schema.name_of_message? typed⟩

/-- Decoding bytes after others that can be decoded merges what they give into the record before.
-/
theorem decodeBody?_append {nested : String → Bytes → Option Record} (hn : Sound schema nested)
    {left right : Bytes} {record : Record}
    (h : decodeBody? nested schema type left = some record)
    : decodeBody? nested schema type (left ++ right)
      = (decodeBody? nested schema type right).map record.overlay := by
  obtain ⟨units, readings, hu, hr, rfl⟩ := decodeBody?_eq_some_iff.mp h
  have hfit := readUnits_fit hn (WireUnit.standing_of_units? hu) hr
  rw [decodeBody?, WireUnit.units?_append hu, decodeBody?]
  cases hmore : WireUnit.units? right with
  | none => rfl
  | some more =>
      rw [Option.map_some, Option.bind_some, Option.bind_some, Traversal.mapM_append_eq_bind, hr,
        Option.bind_some]
      cases hread : more.mapM (readUnit? nested schema type) with
      | none => rfl
      | some others =>
          have hmoreFit := readUnits_fit hn (WireUnit.standing_of_units? hmore) hread
          simp only [Option.map_some, gather_append hfit hmoreFit]

/-- Units in the midst of bytes may be exchanged for others that say the same at each tag. -/
theorem decodeBody?_exchanged {nested : String → Bytes → Option Record}
    {units others : List WireUnit} (standing : ∀ unit ∈ units, unit.Standing)
    (stand : ∀ unit ∈ others, unit.Standing) {readings reread : List Reading}
    (hr : units.mapM (readUnit? nested schema type) = some readings)
    (ho : others.mapM (readUnit? nested schema type) = some reread)
    (same
      : ∀ tag,
          Reading.valuesAt reread tag = Reading.valuesAt readings tag
          ∧ Reading.keptAt reread tag = Reading.keptAt readings tag)
    {front : Bytes} {before : List WireUnit} (hfront : WireUnit.units? front = some before)
    (back : Bytes)
    : decodeBody? nested schema type (front ++ (others.flatMap WireUnit.bytes ++ back))
      = decodeBody? nested schema type (front ++ (units.flatMap WireUnit.bytes ++ back)) := by
  rw [decodeBody?, decodeBody?, WireUnit.units?_append hfront, WireUnit.units?_append hfront,
    WireUnit.units?_append (WireUnit.units?_flatMap standing),
    WireUnit.units?_append (WireUnit.units?_flatMap stand)]
  cases WireUnit.units? back with
  | none => rfl
  | some after =>
      simp only [Option.map_some, Option.bind_some, Traversal.mapM_append_eq_bind, hr, ho]
      cases before.mapM (readUnit? nested schema type) with
      | none => rfl
      | some earlier =>
          cases after.mapM (readUnit? nested schema type) with
          | none => rfl
          | some later =>
              have hgather : gather schema type (earlier ++ (reread ++ later))
                  = gather schema type (earlier ++ (readings ++ later)) := by
                apply gather_congr
                · intro tag
                  simp only [Reading.valuesAt_append, (same tag).1]
                · intro tag
                  simp only [Reading.keptAt_append, (same tag).2]
              simp only [Option.map_some, Option.bind_some, hgather]

/-- A decoder merges what bytes in a row give. -/
def Joining (nested : String → Bytes → Option Record) : Prop :=
  ∀ ⦃name left record⦄ (right : Bytes),
    nested name left = some record
    → nested name (left ++ right) = (nested name right).map record.overlay

theorem decodeWithin?_joining (levels : Nat) : Joining (decodeWithin? schema levels) := by
  intro name left record right h
  cases levels with
  | zero => simp [decodeWithin?] at h
  | succ levels =>
      obtain ⟨type, typed, hleft⟩ := Option.bind_eq_some_iff.mp h
      simp only [decodeWithin?, typed, Option.bind_some]
      exact decodeBody?_append (decodeWithin?_sound levels) hleft

/-- Many stretches of bytes in a row give the merge of all, by induction on how many there are. -/
theorem Joining.flatten {nested : String → Bytes → Option Record} (hj : Joining nested)
    {name : String} {front : Bytes} {record : Record} (h : nested name front = some record)
    {contents : List Bytes} {records : List Record}
    (hc : contents.mapM (nested name) = some records)
    : nested name (front ++ contents.flatten) = some (records.foldl Record.overlay record) := by
  induction contents generalizing front record records with
  | nil =>
      obtain rfl : [] = records := Option.some.inj hc
      simpa using h
  | cons content rest ih =>
      obtain ⟨first, others, hfirst, hrest, rfl⟩ := Traversal.mapM_cons_eq_some_iff.mp hc
      have hjoined : nested name (front ++ content) = some (record.overlay first) := by
        rw [hj content h, hfirst, Option.map_some]
      rw [List.flatten_cons, ← List.append_assoc]
      exact ih hjoined hrest

end Reference

end TagWire
