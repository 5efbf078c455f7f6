import TagWire.Proofs.Decoding.Concatenation
import TagWire.Proofs.Decoding.Depths

/-!
How deep records may nest. Under a lower limit the decoder does what it does under a higher one, or
it stops at the lower limit; and it stops there exactly if the record would be deeper.
-/

namespace TagWire

namespace Decoder

variable {α β : Type} {limit : Nat} {narrow wide : Decoder α}

/-- A decoder does what another one does, errors and all, unless it stops at a limit of nesting. -/
def UpTo (limit : Nat) (narrow wide : Decoder α) : Prop :=
  ∀ cursor : Cursor, narrow cursor = wide cursor ∨ narrow cursor = .error (.recursionLimit limit)

theorem UpTo.refl (limit : Nat) (step : Decoder α) : UpTo limit step step := fun _ => .inl rfl

theorem UpTo.stops (limit : Nat) (wide : Decoder α)
    : UpTo limit (throw (.recursionLimit limit)) wide :=
  fun _ => .inr rfl

/-- What follows is done if the first step is, and so it is if the first step stops. -/
theorem UpTo.bind {next follow : α → Decoder β} (h : UpTo limit narrow wide)
    (hn : ∀ value, UpTo limit (next value) (follow value))
    : UpTo limit (narrow >>= next) (wide >>= follow) := by
  intro cursor
  simp only [Bind.bind, StateT.bind]
  rcases h cursor with he | he
  · rw [he]
    cases wide cursor with
    | error cause => exact .inl rfl
    | ok out => exact hn out.1 out.2
  · rw [he]
    exact .inr rfl

theorem UpTo.andThen {next : α → Decoder β} (h : UpTo limit narrow wide)
    : UpTo limit (narrow >>= next) (wide >>= next) :=
  h.bind (fun value => .refl limit (next value))

theorem UpTo.after {step : Decoder α} {next follow : α → Decoder β}
    (h : ∀ value, UpTo limit (next value) (follow value))
    : UpTo limit (step >>= next) (step >>= follow) :=
  (UpTo.refl limit step).bind h

/-- A window is opened and closed alike around both. -/
theorem UpTo.inWindow (h : UpTo limit narrow wide)
    : UpTo limit (inWindow narrow) (inWindow wide) :=
  .after (fun _ => .after (fun _ => .after (fun _ => h.andThen)))

section Loop

variable {step follow : α → Decoder α}

/-- A repeated step stops where one step does, by induction on the steps that are allowed. -/
theorem UpTo.repeatFor (h : ∀ value, UpTo limit (step value) (follow value)) (fuel : Nat)
    (value : α)
    : UpTo limit (repeatFor step fuel value) (repeatFor follow fuel value) := by
  induction fuel generalizing value with
  | zero => exact .refl limit _
  | succ fuel ih =>
      refine .after (fun remaining => ?_)
      split
      · exact .refl limit _
      · exact (h value).bind ih

theorem UpTo.toEnd (h : ∀ value, UpTo limit (step value) (follow value)) (value : α)
    : UpTo limit (toEnd step value) (toEnd follow value) :=
  .after (fun remaining => .repeatFor h remaining value)

end Loop

end Decoder

-----------------------------------------------------------------------------------------
-- Two limits
-----------------------------------------------------------------------------------------

namespace Record

open Decoder

variable {limit : Nat} {nested other : Field → String → Record → Decoder Record}

theorem readKnown_upTo (h : ∀ field type record, UpTo limit (nested field type record)
      (other field type record))
    (field : Field) (wire : WireKind) (start : Nat) (record : Record)
    : UpTo limit (record.readKnown nested field wire start)
        (record.readKnown other field wire start) := by
  unfold readKnown
  split
  · split
    · exact .refl limit _
    · exact h field _ record
    · exact .refl limit _
    · exact .refl limit _
  · exact .refl limit _

theorem readUnit_upTo (h : ∀ field type record, UpTo limit (nested field type record)
      (other field type record))
    (record : Record)
    : UpTo limit (record.readUnit nested) (record.readUnit other) := by
  refine .after (fun start => .after (fun key => ?_))
  dsimp only
  split
  · exact readKnown_upTo h _ key.2 start record
  · exact .refl limit _

theorem readNested_upTo {inner outer : Record → Decoder Record}
    (h : ∀ record, UpTo limit (inner record) (outer record)) (field : Field) (type : String)
    (record : Record)
    : UpTo limit (record.readNested field type inner) (record.readNested field type outer) := by
  refine UpTo.andThen (UpTo.inWindow ?_)
  split
  · split
    · exact h _
    · exact .refl limit _
  · exact .refl limit _

/-- With fewer levels a record is read as with more, or the reader comes to the end of its levels;
by induction on the fewer levels.
-/
theorem readUnits_upTo (limit wider : Nat) {levels more : Nat} (h : levels ≤ more)
    (record : Record)
    : UpTo limit (record.readUnits limit levels) (record.readUnits wider more) := by
  induction levels generalizing more record with
  | zero =>
      cases more with
      | zero => exact .toEnd (readUnit_upTo (fun _ _ _ => .stops limit _)) record
      | succ more => exact .toEnd (readUnit_upTo (fun _ _ _ => .stops limit _)) record
  | succ levels ih =>
      obtain ⟨more, rfl⟩ := Nat.exists_eq_add_one_of_ne_zero (Nat.ne_zero_of_lt h)
      exact .toEnd (readUnit_upTo (readNested_upTo (ih (Nat.le_of_succ_le_succ h)))) record

/-- Under a lower limit bytes are decoded as under a higher one, or the lower limit is the error. -/
theorem decode_upTo (schema : Schema) (name : String) (bytes : Bytes) {limit wider : Nat}
    (h : limit ≤ wider)
    : decode schema name bytes ⟨limit, false⟩ = decode schema name bytes ⟨wider, false⟩
      ∨ decode schema name bytes ⟨limit, false⟩ = .error (.recursionLimit limit) := by
  cases typed : schema.message? name with
  | none => exact .inl (by simp only [decode, typed])
  | some type =>
      rw [decode_eq_readAll typed, decode_eq_readAll typed, readAll, readAll]
      rcases readUnits_upTo limit wider h (empty schema type) (.ofBytes bytes) with he | he
      · exact .inl (by rw [he])
      · exact .inr (by rw [he]; rfl)

end Record

-----------------------------------------------------------------------------------------
-- Levels that are enough
-----------------------------------------------------------------------------------------

namespace Reference

variable {schema : Schema} {type : MessageType} {nested other : String → Bytes → Option Record}

section Levels

variable {kind : Kind}

/-- Of two values that come for a singular field, what stays is as deep as each. -/
theorem levels_le_later {first second : Value} (h1 : first.Conforms schema kind)
    (h2 : second.Conforms schema kind)
    : first.levels ≤ (later first second).levels ∧ second.levels ≤ (later first second).levels := by
  cases first with
  | scalar scalar =>
      exact ⟨Nat.zero_le _, by cases second <;> exact Nat.le_refl _⟩
  | message mine =>
      obtain ⟨theirs, rfl, hname⟩ := Value.Fits.exists_record (h1.fits.kind_eq ▸ h2.fits)
      have hmine := h1.nested mine rfl
      have htheirs := h2.nested theirs rfl
      exact ⟨Nat.succ_le_succ
          (hmine.depth_le_overlay_lower htheirs (hmine.type_eq htheirs hname.symm)),
        Nat.succ_le_succ htheirs.depth_le_overlay_upper⟩

/-- What stays of values in a row is as deep as each, by induction on the row. -/
theorem levels_le_foldl_later {first : Value} {rest : List Value}
    (h : first.Conforms schema kind) (hr : ∀ value ∈ rest, value.Conforms schema kind)
    : ∀ value ∈ first :: rest, value.levels ≤ (rest.foldl later first).levels := by
  induction rest generalizing first with
  | nil =>
      intro value hv
      rw [List.mem_singleton.mp hv]
      exact Nat.le_refl _
  | cons next rest ih =>
      have hnext := hr next List.mem_cons_self
      have hstay := ih (later_conforms h hnext) (fun value hv => hr value (by simp [hv]))
      have hlater := hstay _ List.mem_cons_self
      obtain ⟨hone, htwo⟩ := levels_le_later h hnext
      intro value hv
      rw [List.foldl_cons]
      rcases List.mem_cons.mp hv with rfl | hv
      · exact Nat.le_trans hone hlater
      · rcases List.mem_cons.mp hv with rfl | hv
        · exact Nat.le_trans htwo hlater
        · exact hstay value (List.mem_cons_of_mem _ hv)

/-- What a field holds is as deep as each of the values that came for it. -/
theorem levels_le_slotOf? {field : Field} {values : List Value}
    (conform : ∀ value ∈ values, value.Conforms schema field.kind) {value : Value}
    (hv : value ∈ values)
    : ∃ slot, slotOf? field values = some slot ∧ value.levels ≤ slot.levels := by
  cases values with
  | nil => simp at hv
  | cons first rest =>
      refine ⟨_, rfl, ?_⟩
      split
      · exact valuesLevels_of_mem hv
      · exact levels_le_foldl_later (conform first List.mem_cons_self)
          (fun value hm => conform value (List.mem_cons_of_mem first hm)) value hv

end Levels

/-- A record that readings make up is deeper than every record that one of them says. -/
theorem depth_lt_gather {readings : List Reading}
    (fits : ∀ reading ∈ readings, reading.Fits schema type) {reading : Reading}
    (hr : reading ∈ readings) {record : Record} (hv : .message record ∈ reading.values)
    : record.depth < (gather schema type readings).depth := by
  obtain ⟨field, hf, _⟩ := (fits reading hr).values _ hv
  have hmem : .message record ∈ Reading.valuesAt readings reading.tag :=
    List.mem_flatMap.mpr ⟨reading, List.mem_filter.mpr ⟨hr, by simp⟩, hv⟩
  obtain ⟨slot, hslot, hle⟩ := levels_le_slotOf? (Reading.Fits.valuesAt fits hf) hmem
  have hs : (gather schema type readings).slot? reading.tag = some slot := by
    rw [slot?_gather, hf, Option.bind_some, hslot]
  calc record.depth
    _ < (Value.message record).levels := Nat.lt_succ_self _
    _ ≤ slot.levels := hle
    _ ≤ (gather schema type readings).depth := slotsLevels_of_mem (TagMap.mem_of_find? hs)

/-- A unit says the same by another decoder for nested records that gives the record it says. -/
theorem readUnit?_by {unit : WireUnit} {reading : Reading}
    (h : readUnit? nested schema type unit = some reading)
    (gives
      : ∀ name content record,
          nested name content = some record
          → .message record ∈ reading.values
          → other name content = some record)
    : readUnit? other schema type unit = some reading := by
  cases hf : type.field? unit.tag with
  | none =>
      rw [readUnit?_undeclared hf] at h ⊢
      exact h
  | some field =>
      by_cases hw : unit.wire = field.wireKind
      · cases hm : field.kind.message? with
        | none =>
            rw [readUnit?_scalar hf hw hm] at h ⊢
            exact h
        | some name =>
            have hk := Kind.eq_message_of_message? hm
            rw [readUnit?_message hf hw hk] at h ⊢
            obtain ⟨record, hrecord, rfl⟩ := Option.map_eq_some_iff.mp h
            rw [gives name _ record hrecord (List.mem_singleton_self _), Option.map_some]
      · rw [readUnit?_other hf hw] at h ⊢
        exact h

/-- Bytes that are decoded with many levels are decoded with as few as the record takes up, by
induction on these.
-/
theorem decodeWithin?_of_depth_lt {levels more : Nat} {name : String} {bytes : Bytes}
    {record : Record} (h : decodeWithin? schema more name bytes = some record)
    (hd : record.depth < levels)
    : decodeWithin? schema levels name bytes = some record := by
  induction levels generalizing more name bytes record with
  | zero => exact absurd hd (Nat.not_lt_zero _)
  | succ levels ih =>
      cases more with
      | zero => simp [decodeWithin?] at h
      | succ more =>
          obtain ⟨type, typed, hbody⟩ := Option.bind_eq_some_iff.mp h
          obtain ⟨units, readings, hu, hr, rfl⟩ := decodeBody?_eq_some_iff.mp hbody
          have fits := readUnits_fit (decodeWithin?_sound more) (WireUnit.standing_of_units? hu) hr
          rw [decodeWithin?, typed, Option.bind_some]
          refine decodeBody?_eq_some_iff.mpr ⟨units, readings, hu, ?_, rfl⟩
          refine Traversal.mapM_of_results hr (fun unit reading hm hread => readUnit?_by hread ?_)
          intro target content inner hinner hv
          exact ih hinner (Nat.lt_of_lt_of_le (depth_lt_gather fits hm hv)
            (Nat.le_of_lt_succ hd))

end Reference

namespace Record

/-- The limit of nesting is exact. Of two limits, the lower one admits the records that the higher
one does, as far as they are no deeper than the lower limit, and the record is the same. One that is
deeper fails with the lower limit and nothing else. Any other error under the lower limit, with its
offset, is that under the higher one, too.
-/
theorem decode_limit_exact (schema : Schema) (name : String) (bytes : Bytes) {limit wider : Nat}
    (h : limit ≤ wider)
    : (∀ record,
        decode schema name bytes ⟨limit, false⟩ = .ok record
        ↔ decode schema name bytes ⟨wider, false⟩ = .ok record ∧ record.depth ≤ limit)
      ∧ (∀ record,
          decode schema name bytes ⟨wider, false⟩ = .ok record
          → limit < record.depth
          → decode schema name bytes ⟨limit, false⟩ = .error (.recursionLimit limit))
      ∧ ∀ error,
          decode schema name bytes ⟨limit, false⟩ = .error error
          → error ≠ .recursionLimit limit
          → decode schema name bytes ⟨wider, false⟩ = .error error := by
  have same := decode_upTo schema name bytes h
  have shallow {record : Record} (hd : decode schema name bytes ⟨limit, false⟩ = .ok record)
      : record.depth ≤ limit :=
    Nat.le_of_lt_succ (Reference.depth_lt_of_decodeWithin? (decode_eq_ok_iff.mp hd))
  refine ⟨fun record => ⟨fun hd => ?_, fun ⟨hd, hle⟩ => ?_⟩, fun record hd hlt => ?_,
    fun error he hne => ?_⟩
  · rcases same with heq | hstop
    · exact ⟨heq ▸ hd, shallow hd⟩
    · simp [hstop] at hd
  · exact decode_eq_ok_iff.mpr
      (Reference.decodeWithin?_of_depth_lt (decode_eq_ok_iff.mp hd) (Nat.lt_succ_of_le hle))
  · rcases same with heq | hstop
    · exact absurd (shallow (heq.trans hd)) (Nat.not_le.mpr hlt)
    · exact hstop
  · rcases same with heq | hstop
    · exact heq ▸ he
    · exact absurd (Except.error.inj (he.symm.trans hstop)) hne

/-- A telephone of a person in an address book lies two levels down, one more than a limit of one
admits.
-/
theorem decode_limit_exact_telephone
    : 1 ≤ 2
      ∧ (∃ book,
        decode AddressBook.schema AddressBook.book.name
            [0x0A, 0x04, 0x22, 0x02, 0x10, 0x01] ⟨2, false⟩
          = .ok book
        ∧ book.depth = 2)
      ∧ decode AddressBook.schema AddressBook.book.name
          [0x0A, 0x04, 0x22, 0x02, 0x10, 0x01] ⟨1, false⟩
        = .error (.recursionLimit 1) := by
  let telephone : Record :=
    ⟨AddressBook.schema, AddressBook.phone, [(2, .single (.scalar (.enum 1)))], []⟩
  let person : Record :=
    ⟨AddressBook.schema, AddressBook.person, [(4, .repeated [.message telephone])], []⟩
  let book : Record :=
    ⟨AddressBook.schema, AddressBook.book, [(1, .repeated [.message person])], []⟩
  have hbook : decode AddressBook.schema AddressBook.book.name
      [0x0A, 0x04, 0x22, 0x02, 0x10, 0x01] ⟨2, false⟩ = .ok book := by
    rfl
  have hdepth : book.depth = 2 := by decide
  have limited := decode_limit_exact AddressBook.schema AddressBook.book.name
    [0x0A, 0x04, 0x22, 0x02, 0x10, 0x01] (show 1 ≤ 2 by decide)
  exact ⟨by decide, ⟨book, hbook, hdepth⟩, limited.2.1 book hbook (by omega)⟩

end Record

end TagWire
