import TagWire.Proofs.Cursor.Shortages
import TagWire.Proofs.Decoding.Concatenation

/-!
Bytes that end too soon. The front of bytes that can be decoded can be decoded, too, if it ends
between two units; if it ends inside a unit, at whatever depth, the decoder runs out of bytes.
-/

namespace TagWire

/-- The front of some bytes ends before, between or after the units that the bytes divide into. -/
def EndsBetweenUnits (bytes front : Bytes) : Prop :=
  ∃ before after,
    WireUnit.units? bytes = some (before ++ after) ∧ front = before.flatMap WireUnit.bytes

namespace Decoder

variable {α β : Type} {cursor : Cursor}

/-- A step fails for want of bytes, at an offset that the buffer has. -/
def Starves (step : Decoder α) (cursor : Cursor) : Prop :=
  ∃ offset cause,
    step cursor = .error (.malformed offset cause)
    ∧ offset ≤ cursor.buffer.size
    ∧ cause.OutOfBytes

theorem Starves.bind {step : Decoder α} (h : step.Starves cursor) (next : α → Decoder β)
    : Starves (step >>= next) cursor := by
  obtain ⟨offset, cause, he, ho, hc⟩ := h
  exact ⟨offset, cause, by simp only [Bind.bind, StateT.bind, he, Except.bind], ho, hc⟩

theorem Starves.after {step : Decoder α} {next : α → Decoder β} {value : α} {moved : Cursor}
    (hs : step.outcome? cursor = some (value, moved)) (same : moved.buffer = cursor.buffer)
    (h : Starves (next value) moved)
    : Starves (step >>= next) cursor := by
  obtain ⟨offset, cause, he, ho, hc⟩ := h
  refine ⟨offset, cause, ?_, same ▸ ho, hc⟩
  rw [outcome?] at hs
  cases hstep : step cursor with
  | error error => simp [hstep, Except.toOption] at hs
  | ok out =>
      rw [hstep] at hs
      obtain rfl := Option.some.inj hs
      simp only [Bind.bind, StateT.bind, hstep, Except.bind, he]

theorem starves_look_bind {view : Cursor → α} {next : α → Decoder β}
    (h : Starves (next (view cursor)) cursor)
    : Starves (look view >>= next) cursor :=
  h

theorem located_starves {read : Read α} (h : read.Starves cursor) {offset : Nat}
    (ho : offset ≤ cursor.buffer.size)
    : Starves (located offset read) cursor := by
  obtain ⟨cause, left, he, hc⟩ := h
  exact ⟨offset, cause, by simp only [located, he], ho, hc⟩

theorem offset_le_size (hb : cursor.Bounded) : cursor.offset ≤ cursor.buffer.size :=
  Nat.le_trans hb.offset_le hb.limit_le

theorem here_starves {read : Read α} (hb : cursor.Bounded) (h : read.Starves cursor)
    : Starves (here read) cursor :=
  starves_look_bind (located_starves h (offset_le_size hb))

/-- With no window around it, a delimited payload that is cut short is noticed before anything is
made of its content.
-/
theorem inWindow_starves {body : Decoder α} {payload : Payload}
    (alone : WireKind.lengthDelimited.payload? payload.bytes = some (payload, []))
    (hb : cursor.Bounded) (hw : cursor.windows = []) (short : CutShort payload.bytes cursor.view)
    : Starves (inWindow body) cursor := by
  have ho := offset_le_size hb
  apply starves_look_bind
  obtain ⟨hlength, hcut | ⟨part, hv, hpart⟩⟩ := CutShort.of_delimited alone short
  · exact (located_starves (Cursor.takeVarint_starves hlength hb hcut) ho).bind _
  · have hread := Cursor.outcome?_takeVarint_append hlength hb hv
    have hwide : (cursor.leave part).view.length < Varint.value payload.length := by
      rw [hb.view_leave hv]
      exact hpart
    refine .after ((outcome?_located _ _ _).trans hread) rfl ?_
    exact (located_starves (Cursor.openWindow_starves (hb.leave part) hw hwide) ho).bind _

/-- A key that is cut short is noticed. -/
theorem key_starves {token : Bytes} (alone : Varint.take? token = some (token, []))
    (hb : cursor.Bounded) (short : CutShort token cursor.view)
    : Starves key cursor :=
  starves_look_bind
    ((located_starves (Cursor.takeVarint_starves alone hb short) (offset_le_size hb)).bind _)

section Loop

variable {first? : Bytes → Option (β × Bytes)} {bytesOf : β → Bytes} {step : α → Decoder α}
  {after? : α → β → Option α} {Held : α → Prop}

/-- With bytes left to read, a repeated step is taken once more. -/
theorem repeatFor_of_unread (step : α → Decoder α) (hb : cursor.Bounded)
    (unread : cursor.view ≠ []) {fuel : Nat} (hf : cursor.view.length ≤ fuel) (value : α)
    : ∃ left,
        fuel = left + 1
        ∧ repeatFor step fuel value cursor = (step value >>= repeatFor step left) cursor := by
  have hpos := List.length_pos_iff.mpr unread
  have more : ¬ cursor.remaining = 0 := by
    rw [hb.remaining_eq]
    omega
  obtain ⟨left, rfl⟩ : ∃ left, fuel = left + 1 := ⟨fuel - 1, by omega⟩
  refine ⟨left, rfl, ?_⟩
  show (if cursor.remaining = 0 then _ else _ : Decoder α) cursor = _
  rw [if_neg more]

/-- A step that takes one token off and keeps an invariant, repeated, comes to the token that is cut
short and fails there for want of bytes; by induction on the tokens before it.
-/
theorem repeatFor_starves (cuts : CutsFront first? bytesOf)
    (steps : ∀ value, Held value → (step value).Takes first? (after? value))
    (keeps
      : ∀ value token next,
          Held value
          → first? (bytesOf token) = some (token, [])
          → after? value token = some next
          → Held next)
    {part : Bytes} (hne : part ≠ [])
    (starving
      : ∀ value (cursor : Cursor),
          Held value
          → cursor.Bounded
          → cursor.windows = []
          → cursor.view = part
          → (step value).Starves cursor)
    {tokens : List β} (alone : ∀ token ∈ tokens, first? (bytesOf token) = some (token, []))
    {value last : α} (hl : tokens.foldlM after? value = some last) (hv : Held value)
    (hb : cursor.Bounded) (hw : cursor.windows = [])
    (hview : cursor.view = tokens.flatMap bytesOf ++ part) {fuel : Nat}
    (hf : cursor.view.length ≤ fuel)
    : (repeatFor step fuel value).Starves cursor := by
  induction tokens generalizing value cursor fuel with
  | nil =>
      have hpart : cursor.view = part := hview
      obtain ⟨left, rfl, hstep⟩ := repeatFor_of_unread step hb (hpart ▸ hne) hf value
      rw [Starves, hstep]
      exact (starving value cursor hv hb hw hpart).bind _
  | cons token rest ih =>
      have hview : cursor.view = bytesOf token ++ (rest.flatMap bytesOf ++ part) := by
        rw [hview, List.flatMap_cons, List.append_assoc]
      have hfirst := cuts.anywhere (alone token (by simp)) (rest.flatMap bytesOf ++ part)
      have hrest := hb.view_leave hview
      have hlt := cuts.rest_length_lt hfirst
      obtain ⟨next, hn, hl⟩ : ∃ next, after? value token = some next
          ∧ rest.foldlM after? next = some last := by
        simpa [List.foldlM_cons, Option.bind_eq_some_iff] using hl
      obtain ⟨left, rfl, hstep⟩ :=
        repeatFor_of_unread step hb (by simp [hview, hne]) hf value
      have taken : outcome? (step value) cursor
          = some (next, cursor.leave (rest.flatMap bytesOf ++ part)) := by
        rw [steps value hv cursor hb, hview, hfirst, Option.bind_some, hn, Option.map_some]
      rw [Starves, hstep]
      refine Starves.after taken rfl ?_
      have hnext := keeps value token next hv (alone token (by simp)) hn
      rw [hview] at hf
      exact ih (fun other ho => alone other (by simp [ho])) hl hnext (hb.leave _) hw hrest
        (by rw [hrest]; omega)

end Loop

end Decoder

namespace Record

open Decoder Reference

variable {schema : Schema} {type : MessageType} {record : Record} {cursor : Cursor}

section Units

variable {nested : Field → String → Record → Decoder Record}
  {nested? : String → Bytes → Option Record} {unit : WireUnit} {reading : Reading}

/-- A step for nested payloads notices that one is cut short whose content the decoder accepts. -/
def Notices (nested : Field → String → Record → Decoder Record)
    (nested? : String → Bytes → Option Record)
    : Prop :=
  ∀ (field : Field) (name : String) (record : Record) (payload : Payload) (cursor : Cursor),
    WireKind.lengthDelimited.payload? payload.bytes = some (payload, [])
    → (∃ inner, nested? name payload.content = some inner)
    → cursor.Bounded
    → cursor.windows = []
    → CutShort payload.bytes cursor.view
    → (nested field name record).Starves cursor

/-- The payload of a declared unit that would be read is cut short, which is noticed. -/
theorem readKnown_starves (notices : Notices nested nested?) {field : Field}
    (hf : type.field? unit.tag = some field)
    (accepted : readUnit? nested? schema type unit = some reading)
    (alone : unit.wire.payload? unit.payload.bytes = some (unit.payload, []))
    (hb : cursor.Bounded) (hw : cursor.windows = [])
    (short : CutShort unit.payload.bytes cursor.view) (start : Nat)
    : (record.readKnown nested field unit.wire start).Starves cursor := by
  by_cases own : unit.wire = field.wireKind
  · rw [own] at alone ⊢
    cases hk : field.kind
    case message name =>
      have hd : field.wireKind = .lengthDelimited := by rw [Field.wireKind, hk]; rfl
      rw [readUnit?_message hf own hk] at accepted
      obtain ⟨inner, hinner, -⟩ := Option.map_eq_some_iff.mp accepted
      rw [hd] at alone
      rw [readKnown_message hk]
      exact notices field name record unit.payload cursor alone ⟨inner, hinner⟩ hb hw short
    case string =>
      have hd : field.wireKind = .lengthDelimited := by rw [Field.wireKind, hk]; rfl
      rw [hd] at alone
      rw [readKnown_string hk]
      exact starves_look_bind
        ((here_starves hb (Cursor.takeDelimited_starves alone hb short)).bind _)
    case bytes =>
      have hd : field.wireKind = .lengthDelimited := by rw [Field.wireKind, hk]; rfl
      rw [hd] at alone
      rw [readKnown_bytes hk]
      exact (here_starves hb (Cursor.takeDelimited_starves alone hb short)).bind _
    all_goals
      obtain ⟨reader, hr⟩ : ∃ reader, field.kind.reader? = some reader := ⟨_, by rw [hk]; rfl⟩
      rw [readKnown_reader hr]
      exact (here_starves hb (Cursor.reader_starves hr alone hb short)).bind _
  · rw [readUnit?_other hf own] at accepted
    split at accepted
    · next hrun =>
        obtain ⟨hd, hrep, hpack⟩ := hrun
        rw [Kind.isPackable_eq_isSome_reader?] at hpack
        obtain ⟨reader, hr⟩ := Option.isSome_iff_exists.mp hpack
        rw [readKnown_run own hd hrep hr]
        rw [hd] at alone
        exact inWindow_starves alone hb hw short
    · simp at accepted

/-- A unit that would be read is cut short in its key or in its payload, which is noticed. -/
theorem readUnit_starves (notices : Notices nested nested?) (same : record.type = type)
    (standing : unit.Standing) (accepted : readUnit? nested? schema type unit = some reading)
    (hb : cursor.Bounded) (hw : cursor.windows = []) (short : CutShort unit.bytes cursor.view)
    : (record.readUnit nested).Starves cursor := by
  obtain ⟨after, hk, htag, hlegal, hwire, hp⟩ := WireUnit.first?_eq_some_iff.mp standing
  have alone := unit.wire.payload?_cuts.alone hp
  have hkey := Varint.take?_cuts.alone hk
  apply starves_look_bind
  rcases short.of_append with hcut | ⟨part, hv, hcut⟩
  · exact (key_starves hkey hb hcut).bind _
  · have hread : outcome? key cursor = some ((unit.tag, unit.wire), cursor.leave part) := by
      have htake : Varint.take? (unit.key ++ part) = some (unit.key, part) :=
        Varint.take?_cuts.anywhere hk part
      rw [outcome?_key hb, hv, htake, Option.bind_some]
      simp only [htag, if_neg hlegal, hwire, Option.map_some]
    have hrest : CutShort unit.payload.bytes (cursor.leave part).view := by
      rw [hb.view_leave hv]
      exact hcut
    refine Starves.after hread rfl ?_
    simp only [same]
    cases hf : type.field? unit.tag with
    | none => exact (here_starves (hb.leave part)
        (Cursor.skip_starves alone (hb.leave part) hrest)).bind _
    | some field => exact readKnown_starves notices hf accepted alone (hb.leave part) hw hrest _

/-- Units are read up to the one that is cut short, which is noticed. -/
theorem toEnd_readUnit_starves (agrees : Agrees schema type nested nested?)
    (notices : Notices nested nested?) (sound : Reference.Sound schema nested?)
    (hc : record.Conforms schema) (same : record.type = type) {before : List WireUnit}
    (standing : ∀ unit ∈ before, unit.Standing) {readings : List Reading}
    (taken : before.mapM (readUnit? nested? schema type) = some readings)
    (stands : unit.Standing) (accepted : readUnit? nested? schema type unit = some reading)
    {part : Bytes} (hne : part ≠ []) (short : CutShort unit.bytes part) (hb : cursor.Bounded)
    (hw : cursor.windows = []) (hview : cursor.view = before.flatMap WireUnit.bytes ++ part)
    : (toEnd (readUnit nested) record).Starves cursor := by
  have typed : schema.message? type.name = some type := same ▸ hc.here.typed
  have absorbed : before.foldlM
      (fun record unit => (readUnit? nested? schema type unit).map (absorb schema type record))
      record = some (record.overlay (gather schema type readings)) := by
    rw [foldlM_absorb typed
      (fun unit hm reading hread => (readUnit?_fits sound (standing unit hm) hread).2) hc same,
      taken, Option.map_some]
  apply starves_look_bind
  exact repeatFor_starves WireUnit.first?_cuts
    (fun value (hv : value.Conforms schema ∧ value.type = type) =>
      readUnit_takes agrees hv.1 hv.2)
    (fun value unit next hv alone hn => conforms_of_readUnit? sound alone hv hn) hne
    (fun value cursor hv hb hw hview =>
      readUnit_starves notices hv.2 stands accepted hb hw (hview ▸ short))
    standing absorbed ⟨hc, same⟩ hb hw hview (Nat.le_of_eq hb.remaining_eq.symm)

end Units

theorem recursionLimit_notices (limit : Nat)
    : Notices (fun _ _ _ => throw (.recursionLimit limit)) (decodeWithin? schema 0) := by
  rintro field name record payload cursor _ ⟨inner, hi⟩
  simp [decodeWithin?] at hi

theorem readNested_notices (inner : Record → Decoder Record)
    (nested? : String → Bytes → Option Record)
    : Notices (fun field name => readNested field name inner) nested? :=
  fun _ _ _ _ _ alone _ hb hw short => (inWindow_starves alone hb hw short).bind _

/-- A buffer that ends inside a unit is read up to that unit, and the error says that bytes are
missing.
-/
theorem readAll_cut_short {name : String} (typed : schema.message? name = some type) {limit : Nat}
    {before : List WireUnit} {unit : WireUnit} (standing : ∀ unit ∈ before, unit.Standing)
    {readings : List Reading}
    (taken
      : before.mapM (readUnit? (decodeWithin? schema limit) schema type) = some readings)
    (stands : unit.Standing) {reading : Reading}
    (accepted : readUnit? (decodeWithin? schema limit) schema type unit = some reading)
    {part : Bytes} (hne : part ≠ []) (short : CutShort unit.bytes part)
    : ∃ offset cause,
        (empty schema type).readAll (before.flatMap WireUnit.bytes ++ part) limit
          = .error (.malformed offset cause)
        ∧ offset ≤ (before.flatMap WireUnit.bytes ++ part).length
        ∧ cause.OutOfBytes := by
  have hempty := empty_conforms typed
  have hb := Cursor.ofBytes_bounded (before.flatMap WireUnit.bytes ++ part)
  have hview := Cursor.view_ofBytes (before.flatMap WireUnit.bytes ++ part)
  have starves : ((empty schema type).readUnits limit limit).Starves
      (.ofBytes (before.flatMap WireUnit.bytes ++ part)) := by
    cases limit with
    | zero =>
        exact toEnd_readUnit_starves (recursionLimit_agrees 0) (recursionLimit_notices 0)
          (decodeWithin?_sound 0) hempty rfl standing taken stands accepted hne short hb rfl hview
    | succ levels =>
        exact toEnd_readUnit_starves
          (readNested_agrees (fun _ hs => readUnits_usesUp (levels + 1) levels hs))
          (readNested_notices _ _) (decodeWithin?_sound (levels + 1)) hempty rfl standing taken
          stands accepted hne short hb rfl hview
  obtain ⟨offset, cause, he, ho, hcause⟩ := starves
  refine ⟨offset, cause, ?_, by simpa [Cursor.ofBytes] using ho, hcause⟩
  rw [readAll, he]
  rfl

/-- The front of bytes that can be decoded can itself be decoded with the same limit if it ends
between two of their outermost units. If it ends inside of one, decoding it fails: a number has no
end, or bytes or a window are asked for that the front does not have, at an offset up to its end.
-/
theorem decode_front {schema : Schema} {name : String} {bytes : Bytes} {limit : Nat}
    {record : Record} (h : decode schema name bytes ⟨limit, false⟩ = .ok record) {front : Bytes}
    (hf : front <+: bytes)
    : (EndsBetweenUnits bytes front
        → ∃ earlier, decode schema name front ⟨limit, false⟩ = .ok earlier)
      ∧ (¬ EndsBetweenUnits bytes front
        → ∃ offset cause,
            decode schema name front ⟨limit, false⟩ = .error (.malformed offset cause)
            ∧ offset ≤ front.length
            ∧ cause.OutOfBytes) := by
  obtain ⟨type, typed, hbody⟩ := Option.bind_eq_some_iff.mp (decode_eq_ok_iff.mp h)
  obtain ⟨units, readings, hu, hr, -⟩ := decodeBody?_eq_some_iff.mp hbody
  have standing := WireUnit.standing_of_units? hu
  constructor
  · rintro ⟨before, after, hends, rfl⟩
    obtain rfl := Option.some.inj (hu.symm.trans hends)
    obtain ⟨earlier, hearlier, -⟩ := Option.bind_eq_some_iff.mp
      ((Traversal.mapM_append_eq_bind before after).symm.trans hr)
    have hunits :=
      WireUnit.units?_flatMap (fun unit hm => standing unit (List.mem_append_left _ hm))
    refine ⟨gather schema type earlier, decode_eq_ok_iff.mpr ?_⟩
    rw [decode?, decodeWithin?, typed, Option.bind_some]
    exact decodeBody?_eq_some_iff.mpr ⟨before, earlier, hunits, hearlier, rfl⟩
  · intro inside
    rw [(WireUnit.first?_cuts.of_cutAll? hu).1] at hf
    obtain ⟨before, after, rfl, rfl | ⟨unit, rest, part, rfl, hne, hcut, rfl⟩⟩ :=
      exists_cutShort_of_prefix hf
    · exact absurd ⟨before, after, hu, rfl⟩ inside
    · rw [Traversal.mapM_append_eq_bind] at hr
      obtain ⟨earlier, hearlier, hlater⟩ := Option.bind_eq_some_iff.mp hr
      obtain ⟨others, hothers, -⟩ := Option.map_eq_some_iff.mp hlater
      obtain ⟨reading, -, hreading, -⟩ := Traversal.mapM_cons_eq_some_iff.mp hothers
      rw [decode_eq_readAll typed]
      exact readAll_cut_short typed (fun unit hm => standing unit (List.mem_append_left _ hm))
        hearlier (standing unit (by simp)) hreading hne hcut

/-- Two people in an address book, cut off between them and in the name of the second. -/
theorem decode_front_people
    : (∃ earlier,
        decode AddressBook.schema AddressBook.book.name [0x0A, 0x03, 0x0A, 0x01, 0x41] ⟨1, false⟩
          = .ok earlier)
      ∧ ∃ offset cause,
          decode AddressBook.schema AddressBook.book.name
              [0x0A, 0x03, 0x0A, 0x01, 0x41, 0x0A, 0x03, 0x0A, 0x01] ⟨1, false⟩
            = .error (.malformed offset cause)
          ∧ offset ≤ 9
          ∧ cause.OutOfBytes := by
  let first : WireUnit := ⟨1, .lengthDelimited, [0x0A], ⟨[0x03], [0x0A, 0x01, 0x41]⟩⟩
  let second : WireUnit := ⟨1, .lengthDelimited, [0x0A], ⟨[0x03], [0x0A, 0x01, 0x42]⟩⟩
  let bytes : Bytes := [0x0A, 0x03, 0x0A, 0x01, 0x41, 0x0A, 0x03, 0x0A, 0x01, 0x42]
  have standing : ∀ unit ∈ [first, second], unit.Standing := by decide
  have units : WireUnit.units? bytes = some [first, second] := WireUnit.units?_flatMap standing
  have read : (decode AddressBook.schema AddressBook.book.name bytes ⟨1, false⟩).toOption.isSome
      = true := by
    decide +kernel
  rw [decode_eq_reference] at read
  obtain ⟨record, hrecord⟩ := Option.isSome_iff_exists.mp read
  have whole := decode_eq_ok_iff.mpr hrecord
  have inside : ¬ EndsBetweenUnits bytes
      [0x0A, 0x03, 0x0A, 0x01, 0x41, 0x0A, 0x03, 0x0A, 0x01] := by
    rintro ⟨before, after, hu, hf⟩
    have hb := Option.some.inj (units.symm.trans hu)
    rcases before with _ | ⟨a, _ | ⟨b, rest⟩⟩
    · simp at hf
    · obtain rfl : first = a := (List.cons.inj hb).1
      simp [first, WireUnit.bytes, Payload.bytes] at hf
    · obtain rfl : first = a := (List.cons.inj hb).1
      obtain rfl : second = b := (List.cons.inj (List.cons.inj hb).2).1
      simp [first, second, WireUnit.bytes, Payload.bytes] at hf
  exact ⟨(decode_front whole ⟨_, rfl⟩).1 ⟨[first], [second], units, rfl⟩,
    (decode_front whole ⟨[0x42], rfl⟩).2 inside⟩

end Record

end TagWire
