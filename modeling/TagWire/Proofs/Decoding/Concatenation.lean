import TagWire.AddressBook.Schema
import TagWire.Proofs.Decoding.Refinement
import TagWire.Record.Hop

/-!
Bytes in a row are records merged. The decoder writes into slots that are there already, and a merge
lays one finished record over another; both come to the same.
-/

namespace TagWire

namespace Record

open Reference

theorem decode_eq_ok_iff {schema : Schema} {name : String} {bytes : Bytes} {limit : Nat}
    {record : Record}
    : decode schema name bytes ⟨limit, false⟩ = .ok record
      ↔ decode? schema limit name bytes = some record := by
  cases typed : schema.message? name with
  | none => simp [decode, decode?, decodeWithin?, typed, throw, throwThe, MonadExceptOf.throw]
  | some type =>
      rw [decode_eq_readAll typed, ← readAll_eq typed]
      cases (empty schema type).readAll bytes limit <;> simp [Except.toOption]

/-- A decoded record is of the type that was asked for. -/
theorem of_decode_eq_ok {schema : Schema} {name : String} {bytes : Bytes} {limit : Nat}
    {record : Record} (h : decode schema name bytes ⟨limit, false⟩ = .ok record)
    : decode? schema limit name bytes = some record
      ∧ record.Conforms schema
      ∧ record.type.name = name := by
  have href := decode_eq_ok_iff.mp h
  exact ⟨href, decodeWithin?_sound (limit + 1) href⟩

/-- Whether required fields are asked for only decides if a decoded record is refused. -/
theorem decode_eq_ok_iff_unchecked {schema : Schema} {name : String} {bytes : Bytes}
    {options : DecodeOptions} {record : Record}
    : decode schema name bytes options = .ok record
      ↔ decode schema name bytes ⟨options.recursionLimit, false⟩ = .ok record
        ∧ (options.checkRequired = true → record.isComplete = true) := by
  cases typed : schema.message? name with
  | none => simp [decode, typed, throw, throwThe, MonadExceptOf.throw]
  | some type =>
      rw [decode_eq_readAll typed, decode_eq_of_message? typed]
      cases (empty schema type).readAll bytes options.recursionLimit with
      | error cause => simp
      | ok read =>
          by_cases refused : options.checkRequired = true ∧ read.isComplete = false
          · simp only [refused, Bool.not_false, Bool.and_true, if_true, Except.ok.injEq,
              reduceCtorEq, false_iff]
            rintro ⟨rfl, complete⟩
            exact Bool.false_ne_true (refused.2.symm.trans (complete trivial))
          · have passed : (options.checkRequired && !read.isComplete) = false := by
              simpa using refused
            simp only [passed, Bool.false_eq_true, if_false, Except.ok.injEq]
            constructor
            · rintro rfl
              exact ⟨rfl, by simpa using refused⟩
            · exact And.left

/-- Records of one type name are merged without refusal. -/
theorem merge_eq_ok {record other : Record} (same : other.type.name = record.type.name)
    : record.merge other = .ok (record.overlay other) := by
  simp [merge, same]

theorem of_merge_eq_ok {record other merged : Record} (h : record.merge other = .ok merged)
    : other.type.name = record.type.name ∧ record.overlay other = merged := by
  rw [merge] at h
  split at h
  · simp at h
  · next same => exact ⟨by simpa using same, Except.ok.inj h⟩

/-- To merge bytes is to decode them with the default limit and to merge the record, if there is
one.
-/
theorem mergeBytes_eq {schema : Schema} {record : Record} (hc : record.Conforms schema)
    (bytes : Bytes)
    : record.mergeBytes bytes
      = (decode schema record.type.name bytes {}).map record.overlay := by
  have hread := decode_eq_readAll hc.here.typed bytes ({} : DecodeOptions).recursionLimit
  rw [mergeBytes, hc.here.ofSchema, ← hread]
  cases decode schema record.type.name bytes {} <;> rfl

/-- Bytes that follow bytes which can be decoded are decoded onto the record that came of these. -/
theorem decode_append_eq_ok_iff {schema : Schema} {name : String} {limit : Nat} {front : Bytes}
    {record : Record} (h : decode schema name front ⟨limit, false⟩ = .ok record) {bytes : Bytes}
    {whole : Record}
    : decode schema name (front ++ bytes) ⟨limit, false⟩ = .ok whole
      ↔ ∃ other,
          decode schema name bytes ⟨limit, false⟩ = .ok other ∧ record.overlay other = whole := by
  have href := decode_eq_ok_iff.mp h
  simp only [decode_eq_ok_iff, decode?] at href ⊢
  rw [decodeWithin?_joining (limit + 1) bytes href, Option.map_eq_some_iff]

/-- Bytes that follow bytes which can be decoded can be decoded with them exactly if they can be
decoded alone, and what comes out is the merge of the two records, which is never refused. To merge
the bytes with the default limit gives that merge, too, or fails and leaves the record as it is.
-/
theorem decode_append_eq_merge {schema : Schema} {name : String} {limit : Nat} {front : Bytes}
    {record : Record} (h : decode schema name front ⟨limit, false⟩ = .ok record) (bytes : Bytes)
    : (∀ whole,
        decode schema name (front ++ bytes) ⟨limit, false⟩ = .ok whole
        ↔ ∃ other,
            decode schema name bytes ⟨limit, false⟩ = .ok other ∧ record.merge other = .ok whole)
      ∧ (∀ other,
          decode schema name bytes ⟨limit, false⟩ = .ok other
          → ∃ whole, record.merge other = .ok whole)
      ∧ (∀ whole,
          attempt (fun record => record.mergeBytes bytes) record = (.ok (), whole)
          ↔ ∃ other, decode schema name bytes {} = .ok other ∧ record.merge other = .ok whole)
      ∧ (∀ error,
          decode schema name bytes {} = .error error
          → attempt (fun record => record.mergeBytes bytes) record = (.error error, record)) := by
  obtain ⟨_, hc, rfl⟩ := of_decode_eq_ok h
  have merges {limit : Nat} {other : Record}
      (ho : decode schema record.type.name bytes ⟨limit, false⟩ = .ok other)
      : record.merge other = .ok (record.overlay other) :=
    merge_eq_ok (of_decode_eq_ok ho).2.2
  have hbytes := mergeBytes_eq hc bytes
  refine ⟨fun whole => ?_, fun other ho => ⟨_, merges ho⟩, fun whole => ?_, fun error he => ?_⟩
  · rw [decode_append_eq_ok_iff h]
    refine exists_congr (fun other => and_congr_right (fun ho => ?_))
    rw [merges ho, Except.ok.injEq]
  · rw [attempt, hbytes]
    cases ho : decode schema record.type.name bytes {} with
    | error error => simp [Except.map]
    | ok other => simp [Except.map, merges ho]
  · rw [attempt, hbytes, he]
    rfl

/-- A telephone number of one sort, and then of another. -/
theorem decode_append_eq_merge_phone
    : decode AddressBook.schema AddressBook.phone.name [0x10, 0x01] ⟨0, false⟩
        = .ok ⟨AddressBook.schema, AddressBook.phone, [(2, .single (.scalar (.enum 1)))], []⟩
      ∧ decode AddressBook.schema AddressBook.phone.name [0x10, 0x01, 0x10, 0x02] ⟨0, false⟩
        = .ok ⟨AddressBook.schema, AddressBook.phone, [(2, .single (.scalar (.enum 2)))], []⟩ := by
  have front : decode AddressBook.schema AddressBook.phone.name [0x10, 0x01] ⟨0, false⟩
      = .ok ⟨AddressBook.schema, AddressBook.phone, [(2, .single (.scalar (.enum 1)))], []⟩ := by
    rfl
  exact ⟨front, ((decode_append_eq_merge front [0x10, 0x02]).1 _).mpr ⟨_, rfl, rfl⟩⟩

end Record

end TagWire
