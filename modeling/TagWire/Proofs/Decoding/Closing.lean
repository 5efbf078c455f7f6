import TagWire.AddressBook.Schema
import TagWire.Proofs.Cursor.Calls
import TagWire.Proofs.Decoding.Refinement

/-!
Decoding closes the windows that it opens. Every step takes a byte at least, so a loop ends where
nothing remains; and a window in which that is so is closed without complaint.
-/

namespace TagWire

-----------------------------------------------------------------------------------------
-- Errors of closing, and where a cursor may go
-----------------------------------------------------------------------------------------

/-- A window was closed at a wrong place, or none was open. -/
def CursorError.OfClosing : CursorError → Prop
  | .window (.closeWithRest _) | .window .closeWithoutWindow | .window (.offsetPastLimit _) => True
  | _ => False

/-- An error that reports a window that was closed at a wrong place. -/
def DecodeError.OfClosing : DecodeError → Prop
  | .malformed _ cause => cause.OfClosing
  | _ => False

namespace Cursor

variable {cursor moved : Cursor}

theorem OfReading.not_ofClosing {cause : CursorError} (h : OfReading cause)
    : ¬ cause.OfClosing := by
  intro closing
  match cause with
  | .token _ => exact closing
  | .window (.readPastLimit _ _ _) => exact closing

/-- A cursor has read on in the windows that were open, by a byte at least. -/
structure ReadsPast (cursor moved : Cursor) : Prop extends cursor.ReadsOn moved where
  lt : cursor.offset < moved.offset

theorem ReadsPast.trans {last : Cursor} (first : cursor.ReadsPast moved)
    (second : moved.ReadsOn last)
    : cursor.ReadsPast last :=
  ⟨first.toReadsOn.trans second, Nat.lt_of_lt_of_le first.lt second.offset_le⟩

/-- A cursor at the end of what it may read. -/
def atLimit (cursor : Cursor) : Cursor := { cursor with offset := cursor.limit }

theorem Sound.readsOn_atLimit (h : cursor.Sound) : cursor.ReadsOn cursor.atLimit :=
  ⟨rfl, rfl, h.offset_le, Nat.le_refl _⟩

theorem ReadsOn.atLimit_eq (h : cursor.ReadsOn moved) : moved.atLimit = cursor.atLimit := by
  rw [atLimit, atLimit, h.buffer, h.windows, h.limit_eq]

theorem Sound.eq_atLimit (h : cursor.Sound) (hend : cursor.remaining = 0)
    : cursor = cursor.atLimit := by
  have hoffset : cursor.offset = cursor.limit :=
    Nat.le_antisymm h.offset_le (Nat.sub_eq_zero_iff_le.mp hend)
  rw [atLimit, ← hoffset]

/-- A cursor in a window that was opened further on, and the cursor behind that window. -/
structure Encloses (cursor opened moved : Cursor) : Prop where
  sound : opened.Sound
  buffer : opened.buffer = cursor.buffer
  windows : opened.windows = opened.limit :: cursor.windows
  offset_lt : cursor.offset < opened.offset
  limit_le : opened.limit ≤ cursor.limit
  moved_eq : moved = { cursor with offset := opened.limit }

theorem Encloses.readsPast {opened : Cursor} (h : cursor.Encloses opened moved)
    : cursor.ReadsPast moved := by
  obtain ⟨sound, _, _, offset_lt, limit_le, rfl⟩ := h
  have hlt := Nat.lt_of_lt_of_le offset_lt sound.offset_le
  exact ⟨⟨rfl, rfl, Nat.le_of_lt hlt, limit_le⟩, hlt⟩

/-- A value of a packable kind takes a byte at least. -/
theorem forward_reader {kind : Kind} {reader : Read Scalar} (h : kind.reader? = some reader)
    : Forward 1 reader := by
  cases kind <;> simp only [Kind.reader?, Option.some.injEq, reduceCtorEq] at h <;> subst h
  case fixed32 | sfixed32 | float =>
    exact (forward_takeFixed32.map _).weaken (by decide)
  case fixed64 | sfixed64 | double =>
    exact (forward_takeFixed64.map _).weaken (by decide)
  all_goals exact forward_takeVarint.map _

theorem forward_skip (wire : WireKind) : Forward 0 wire.skip := by
  cases wire with
  | varint => exact (forward_takeVarint.map _).weaken (by decide)
  | fixed64 => exact ((forward_take 8).map _).weaken (by decide)
  | lengthDelimited => exact (forward_takeDelimited.map _).weaken (by decide)
  | fixed32 => exact ((forward_take 4).map _).weaken (by decide)

end Cursor

namespace Decoder

open Cursor

variable {α β : Type} {cursor : Cursor}

-----------------------------------------------------------------------------------------
-- Steps, loops and windows
-----------------------------------------------------------------------------------------

/-- A step gives something that stands in a relation to where it leaves the cursor, or it fails,
but not by closing a window.
-/
structure Leads (step : Decoder α) (cursor : Cursor) (there : α → Cursor → Prop) : Prop where
  arrives : ∀ value moved, step cursor = .ok (value, moved) → there value moved
  fails : ∀ error, step cursor = .error error → ¬ error.OfClosing

theorem leads_of_ok {step : Decoder α} {there : α → Cursor → Prop} {value : α} {moved : Cursor}
    (hok : step cursor = .ok (value, moved)) (h : there value moved)
    : step.Leads cursor there := by
  refine ⟨fun other left he => ?_, fun error he => by cases hok.symm.trans he⟩
  obtain ⟨rfl, rfl⟩ := Prod.mk.inj (Except.ok.inj (hok.symm.trans he))
  exact h

theorem leads_of_error {step : Decoder α} {there : α → Cursor → Prop} {error : DecodeError}
    (herror : step cursor = .error error) (h : ¬ error.OfClosing)
    : step.Leads cursor there := by
  refine ⟨(fun value moved he => by cases herror.symm.trans he), fun other he => ?_⟩
  obtain rfl := Except.error.inj (herror.symm.trans he)
  exact h

theorem leads_pure {there : α → Cursor → Prop} {value : α} (h : there value cursor)
    : (pure value : Decoder α).Leads cursor there :=
  leads_of_ok rfl h

theorem leads_throw {there : α → Cursor → Prop} {error : DecodeError} (h : ¬ error.OfClosing)
    : (throw error : Decoder α).Leads cursor there :=
  leads_of_error rfl h

theorem Leads.mono {step : Decoder α} {there near : α → Cursor → Prop}
    (h : step.Leads cursor there) (hle : ∀ value moved, there value moved → near value moved)
    : step.Leads cursor near :=
  ⟨fun value moved hok => hle value moved (h.arrives value moved hok), h.fails⟩

theorem Leads.bind {step : Decoder α} {next : α → Decoder β} {near : α → Cursor → Prop}
    {there : β → Cursor → Prop} (h : step.Leads cursor near)
    (hn
      : ∀ value moved,
          step cursor = .ok (value, moved)
          → near value moved
          → (next value).Leads moved there)
    : (step >>= next).Leads cursor there := by
  cases hs : step cursor with
  | error error =>
      have hbind : (step >>= next) cursor = .error error := by
        simp only [Bind.bind, StateT.bind, hs, Except.bind]
      exact leads_of_error hbind (h.fails error hs)
  | ok out =>
      have hbind : (step >>= next) cursor = next out.1 out.2 := by
        simp only [Bind.bind, StateT.bind, hs, Except.bind]
      have later := hn out.1 out.2 hs (h.arrives out.1 out.2 hs)
      exact ⟨fun value moved hok => later.arrives value moved (hbind ▸ hok),
        fun error he => later.fails error (hbind ▸ he)⟩

theorem leads_look_bind {view : Cursor → α} {next : α → Decoder β} {there : β → Cursor → Prop}
    (h : (next (view cursor)).Leads cursor there)
    : (look view >>= next).Leads cursor there :=
  ⟨h.arrives, h.fails⟩

theorem leads_located {least : Nat} {read : Read α} (h : Forward least read) (hs : cursor.Sound)
    (offset : Nat)
    : (located offset read).Leads cursor (fun _ moved =>
        cursor.ReadsOn moved ∧ cursor.offset + least ≤ moved.offset) := by
  have arrives := h cursor hs
  cases hr : read cursor with
  | ok value moved =>
      rw [hr] at arrives
      cases arrives with
      | ok h => exact leads_of_ok (by rw [located, hr]) h
  | error cause moved =>
      rw [hr] at arrives
      cases arrives with
      | error h =>
          have herror : located offset read cursor = .error (.malformed offset cause) := by
            rw [located, hr]
          exact leads_of_error herror h.1.not_ofClosing

theorem leads_here {least : Nat} {read : Read α} (h : Forward least read) (hs : cursor.Sound)
    : (here read).Leads cursor (fun _ moved =>
        cursor.ReadsOn moved ∧ cursor.offset + least ≤ moved.offset) :=
  leads_look_bind (leads_located h hs cursor.offset)

/-- A loop that goes on as long as something remains, and moves the cursor on each time. -/
inductive Runs (step : α → Decoder α) : α → Cursor → α → Cursor → Prop
  | done {value : α} {cursor : Cursor} (atEnd : cursor.remaining = 0)
    : Runs step value cursor value cursor
  | again {value next last : α} {cursor middle moved : Cursor} (left : cursor.remaining ≠ 0)
    (ok : step value cursor = .ok (next, middle)) (past : cursor.ReadsPast middle)
    (rest : Runs step next middle last moved)
    : Runs step value cursor last moved

/-- A step that moves the cursor on wherever it does not fail. -/
def Advances (step : α → Decoder α) : Prop :=
  ∀ (value next : α) (cursor moved : Cursor),
    cursor.Sound → step value cursor = .ok (next, moved) → cursor.ReadsPast moved

/-- What a loop comes to that ends where nothing more may be read. -/
def RunsOut (step : α → Decoder α) (value : α) (cursor : Cursor) (last : α) (moved : Cursor)
    : Prop :=
  Runs step value cursor last moved ∧ moved = cursor.atLimit

section Loop

variable {step : α → Decoder α}
  (steps
    : ∀ (value : α) (cursor : Cursor),
        cursor.Sound → (step value).Leads cursor (fun _ moved => cursor.ReadsPast moved))

include steps

/-- Steps that each take a byte at least reach the end, by induction on the number of steps that
are allowed, which is no smaller than that of the bytes.
-/
theorem leads_repeatFor (fuel : Nat) (value : α) (hs : cursor.Sound)
    (hfuel : cursor.remaining ≤ fuel)
    : (repeatFor step fuel value).Leads cursor (RunsOut step value cursor) := by
  induction fuel generalizing value cursor with
  | zero =>
      have hend : cursor.remaining = 0 := Nat.le_zero.mp hfuel
      exact leads_pure ⟨.done hend, hs.eq_atLimit hend⟩
  | succ fuel ih =>
      apply leads_look_bind
      split
      · next hend => exact leads_pure ⟨.done hend, hs.eq_atLimit hend⟩
      · next left =>
          refine (steps value cursor hs).bind (fun next middle hok past => ?_)
          have hless : middle.remaining ≤ fuel := by
            have hlt := past.lt
            have hlimit := past.limit_eq
            have hoffset := hs.offset_le
            simp only [remaining] at hfuel ⊢
            omega
          apply (ih next (past.sound hs) hless).mono
          rintro last moved ⟨runs, rfl⟩
          exact ⟨.again left hok past runs, past.atLimit_eq⟩

theorem leads_toEnd (value : α) (hs : cursor.Sound)
    : (toEnd step value).Leads cursor (RunsOut step value cursor) :=
  leads_look_bind (leads_repeatFor steps cursor.remaining value hs (Nat.le_refl _))

end Loop

theorem leads_openWindow (hs : cursor.Sound) (offset width : Nat)
    : (located offset (openWindow width)).Leads cursor (fun _ moved =>
        width ≤ cursor.remaining ∧ moved = cursor.opened width) := by
  have hopen := hs.openWindow_eq width
  by_cases hfits : width ≤ cursor.remaining
  · rw [if_pos hfits] at hopen
    exact leads_of_ok (by rw [located, hopen]) ⟨hfits, rfl⟩
  · rw [if_neg hfits] at hopen
    refine leads_of_error (by rw [located, hopen]) ?_
    show ¬ CursorError.OfClosing _
    split <;> exact id

/-- A window that is read to its end is closed without complaint. -/
theorem leads_closeWindow {width : Nat} (hs : (cursor.opened width).Sound)
    : (here closeWindow).Leads (cursor.opened width).atLimit (fun _ moved =>
        moved = { cursor with offset := cursor.offset + width }) := by
  have atEnd := hs.readsOn_atLimit.sound hs
  have hrest : (cursor.opened width).atLimit.remaining = 0 := Nat.sub_self _
  have hclosed : closeWindow (cursor.opened width).atLimit
      = .ok () { cursor with offset := cursor.offset + width } :=
    atEnd.closeWindow_eq.trans (if_pos hrest)
  exact leads_look_bind (leads_of_ok (by rw [located, hclosed]) rfl)

/-- What is read in a window is read to its end, and the window is gone behind it. -/
theorem leads_inWindow {body : Decoder α} (there : Cursor → α → Prop) (hs : cursor.Sound)
    (inside
      : ∀ opened : Cursor,
          opened.Sound
          → body.Leads opened (fun value moved => moved = opened.atLimit ∧ there opened value))
    : (inWindow body).Leads cursor (fun value moved =>
        ∃ opened, cursor.Encloses opened moved ∧ there opened value) := by
  apply leads_look_bind
  refine (leads_located forward_takeVarint hs _).bind (fun width before _ hlength => ?_)
  obtain ⟨onward, taken⟩ := hlength
  have hbefore := onward.sound hs
  refine (leads_openWindow hbefore _ width).bind (fun _ opened _ hopened => ?_)
  obtain ⟨hfits, rfl⟩ := hopened
  have sound := (hbefore.keepsOn_opened hfits).sound
  refine (inside _ sound).bind (fun value last _ hlast => ?_)
  obtain ⟨rfl, hthere⟩ := hlast
  refine (leads_closeWindow sound).bind (fun _ moved _ hmoved => ?_)
  subst hmoved
  have hlimit : (before.opened width).limit = before.offset + width := rfl
  refine leads_pure ⟨before.opened width, ⟨sound, onward.buffer, ?_, taken, ?_, ?_⟩, hthere⟩
  · rw [hlimit, ← onward.windows]
    rfl
  · have hoffset := hbefore.offset_le
    rw [remaining] at hfits
    rw [hlimit, ← onward.limit_eq]
    omega
  · rw [hlimit, onward.buffer, onward.windows]

end Decoder

namespace Record

open Cursor Decoder

variable {cursor : Cursor} {nested : Field → String → Record → Decoder Record}

-----------------------------------------------------------------------------------------
-- Units
-----------------------------------------------------------------------------------------

theorem leads_key (hs : cursor.Sound)
    : key.Leads cursor (fun _ moved => cursor.ReadsPast moved) := by
  apply leads_look_bind
  refine (leads_located forward_takeVarint hs _).bind (fun number moved _ hread => ?_)
  have past : cursor.ReadsPast moved := ⟨hread.1, hread.2⟩
  simp only
  split
  · exact leads_throw id
  · split
    · exact leads_pure past
    · exact leads_throw id

theorem leads_readUnknown (start tag : Nat) (wire : WireKind) (record : Record) (hs : cursor.Sound)
    : (record.readUnknown start tag wire).Leads cursor (fun _ moved => cursor.ReadsOn moved) :=
  (leads_here (forward_skip wire) hs).bind (fun _ _ _ h => leads_look_bind (leads_pure h.1))

/-- An element of a packed run takes a byte at least. -/
theorem leads_readElement {field : Field} {reader : Read Scalar}
    (hr : field.kind.reader? = some reader) (record : Record) (hs : cursor.Sound)
    : (record.readElement field reader).Leads cursor (fun _ moved => cursor.ReadsPast moved) := by
  apply leads_look_bind
  refine (leads_here (forward_reader hr) hs).bind (fun value moved _ hread => ?_)
  have past : cursor.ReadsPast moved := ⟨hread.1, hread.2⟩
  split
  · exact leads_look_bind (leads_pure past)
  · exact leads_pure past

theorem leads_readScalar {field : Field} {reader : Read Scalar}
    (hr : field.kind.reader? = some reader) (start : Nat) (record : Record) (hs : cursor.Sound)
    : (record.readScalar field start reader).Leads cursor
        (fun _ moved => cursor.ReadsOn moved) := by
  refine (leads_here (forward_reader hr) hs).bind (fun value moved _ hread => ?_)
  split
  · exact leads_look_bind (leads_pure hread.1)
  · exact leads_pure hread.1

theorem leads_readString (field : Field) (record : Record) (hs : cursor.Sound)
    : (record.readString field).Leads cursor (fun _ moved => cursor.ReadsOn moved) := by
  apply leads_look_bind
  refine (leads_here forward_takeDelimited hs).bind (fun content moved _ hread => ?_)
  split
  · exact leads_pure hread.1
  · exact leads_throw id

theorem leads_readBytes (field : Field) (record : Record) (hs : cursor.Sound)
    : (record.readBytes field).Leads cursor (fun _ moved => cursor.ReadsOn moved) :=
  (leads_here forward_takeDelimited hs).bind (fun _ _ _ h => leads_pure h.1)

section Nested

variable {inner : Record → Decoder Record}
  (inside
    : ∀ (start : Record) (opened : Cursor),
        opened.Sound → (inner start).Leads opened (fun _ moved => moved = opened.atLimit))

include inside

/-- A nested record is read in a window of its own. -/
theorem leads_readNested (field : Field) (type : String) (record : Record) (hs : cursor.Sound)
    : (record.readNested field type inner).Leads cursor (fun _ moved =>
        ∃ opened start read,
          cursor.Encloses opened moved ∧ inner start opened = .ok (read, opened.atLimit)) := by
  refine (leads_inWindow
    (fun opened read => ∃ start, inner start opened = .ok (read, opened.atLimit)) hs
    (fun opened sound => ?_)).bind (fun read moved _ hread => ?_)
  · split
    · next fresh _ =>
        split
        · have started := inside (record.nestedStart field fresh) opened sound
          refine ⟨fun read moved hok => ?_, started.fails⟩
          obtain rfl := started.arrives read moved hok
          exact ⟨rfl, _, hok⟩
        · exact leads_throw id
    · exact leads_throw id
  · obtain ⟨opened, encloses, start, hstart⟩ := hread
    exact leads_pure ⟨opened, start, read, encloses, hstart⟩

theorem leads_readNested_onward (field : Field) (type : String) (record : Record) (cursor : Cursor)
    (hs : cursor.Sound)
    : (record.readNested field type inner).Leads cursor (fun _ moved => cursor.ReadsOn moved) := by
  apply (leads_readNested inside field type record hs).mono
  rintro read moved ⟨opened, _, _, encloses, _⟩
  exact encloses.readsPast.toReadsOn

end Nested

/-- A packed run is read element by element in a window of its own. -/
theorem leads_readPacked {field : Field} {reader : Read Scalar}
    (hr : field.kind.reader? = some reader) (record : Record) (hs : cursor.Sound)
    : (inWindow (toEnd (readElement field reader) record)).Leads cursor (fun read moved =>
        ∃ opened,
          cursor.Encloses opened moved
          ∧ Runs (readElement field reader) record opened read opened.atLimit) := by
  apply leads_inWindow _ hs
  intro opened sound
  apply (leads_toEnd (fun record _ hs => leads_readElement hr record hs) record sound).mono
  rintro read moved ⟨runs, rfl⟩
  exact ⟨rfl, runs⟩

section Unit

variable
  (inside
    : ∀ (field : Field) (type : String) (record : Record) (cursor : Cursor),
        cursor.Sound
        → (nested field type record).Leads cursor (fun _ moved => cursor.ReadsOn moved))

include inside

/-- The payload of a declared unit is read by its field, if nested records are read on. -/
theorem leads_readKnown (field : Field) (wire : WireKind) (start : Nat) (record : Record)
    (hs : cursor.Sound)
    : (record.readKnown nested field wire start).Leads cursor (fun _ moved =>
        cursor.ReadsOn moved) := by
  unfold readKnown
  split
  · split
    · next reader _ hr => exact leads_readScalar hr start record hs
    · next type _ _ => exact inside field type record cursor hs
    · exact leads_readString field record hs
    · exact leads_readBytes field record hs
  · split
    · next reader hr _ _ =>
        apply (leads_readPacked hr record hs).mono
        rintro read moved ⟨opened, encloses, _⟩
        exact encloses.readsPast.toReadsOn
    · exact leads_throw id

/-- A unit takes a byte at least, which is that of its key. -/
theorem leads_readUnit (record : Record) (hs : cursor.Sound)
    : (record.readUnit nested).Leads cursor (fun _ moved => cursor.ReadsPast moved) := by
  apply leads_look_bind
  refine (leads_key hs).bind (fun out behind _ past => ?_)
  have sound := past.sound hs
  obtain ⟨tag, wire⟩ := out
  simp only
  split
  · next field _ =>
      apply (leads_readKnown inside field wire cursor.offset record sound).mono
      exact fun _ _ onward => past.trans onward
  · apply (leads_readUnknown cursor.offset tag wire record sound).mono
    exact fun _ _ onward => past.trans onward

end Unit

-----------------------------------------------------------------------------------------
-- Levels
-----------------------------------------------------------------------------------------

/-- How nested records are read with some levels left. -/
def nestedReader (limit : Nat) : (levels : Nat) → Field → String → Record → Decoder Record
  | 0 => fun _ _ _ => throw (.recursionLimit limit)
  | levels + 1 => fun field type => readNested field type (readUnits limit levels)

theorem readUnits_eq_toEnd (limit levels : Nat)
    : readUnits limit levels = toEnd (readUnit (nestedReader limit levels)) := by
  cases levels <;> rfl

/-- Nested records are read on in the windows that were open, by induction on the levels that are
left for them.
-/
theorem leads_nestedReader (limit levels : Nat) (field : Field) (type : String) (record : Record)
    (cursor : Cursor) (hs : cursor.Sound)
    : (nestedReader limit levels field type record).Leads cursor (fun _ moved =>
        cursor.ReadsOn moved) := by
  induction levels generalizing field type record cursor with
  | zero => exact leads_throw id
  | succ levels ih =>
      apply leads_readNested_onward _ field type record cursor hs
      intro start opened sound
      rw [readUnits_eq_toEnd]
      have units := leads_toEnd (fun record _ hs => leads_readUnit ih record hs) start sound
      exact units.mono (fun _ _ h => h.2)

/-- Units are read to the end of the window, whatever the levels that are left. -/
theorem leads_readUnits (limit levels : Nat) (record : Record) (hs : cursor.Sound)
    : (record.readUnits limit levels).Leads cursor
        (RunsOut (readUnit (nestedReader limit levels)) record cursor) := by
  rw [readUnits_eq_toEnd]
  apply leads_toEnd _ record hs
  intro record cursor hs
  exact leads_readUnit (leads_nestedReader limit levels) record hs

theorem advances_readUnit (limit levels : Nat)
    : Advances (readUnit (nestedReader limit levels)) := by
  intro record next cursor moved hs hok
  exact (leads_readUnit (leads_nestedReader limit levels) record hs).arrives next moved hok

-----------------------------------------------------------------------------------------
-- Decoding
-----------------------------------------------------------------------------------------

variable {record read : Record} {bytes : Bytes} {limit : Nat}

theorem not_ofClosing_of_readAll {error : DecodeError}
    (h : record.readAll bytes limit = .error error)
    : ¬ error.OfClosing := by
  rw [readAll] at h
  cases hr : record.readUnits limit limit (ofBytes bytes) with
  | ok out =>
      rw [hr] at h
      cases h
  | error cause =>
      rw [hr] at h
      obtain rfl := Except.error.inj h
      exact (leads_readUnits limit limit record (ofBytes_sound bytes)).fails _ hr

/-- Where all bytes are read, the cursor is behind the last of them and no window is open. -/
theorem readUnits_of_readAll (h : record.readAll bytes limit = .ok read)
    : record.readUnits limit limit (ofBytes bytes)
      = .ok (read, ⟨bytes.toArray, bytes.length, []⟩) := by
  rw [readAll] at h
  cases hr : record.readUnits limit limit (ofBytes bytes) with
  | error cause =>
      rw [hr] at h
      cases h
  | ok out =>
      rw [hr] at h
      obtain rfl : out.1 = read := Except.ok.inj h
      have ends := (leads_readUnits limit limit record (ofBytes_sound bytes)).arrives _ _ hr
      have hlimit : (ofBytes bytes).atLimit = ⟨bytes.toArray, bytes.length, []⟩ := by
        simp [atLimit, ofBytes, Cursor.limit]
      rw [← hlimit, ← ends.2]

theorem not_ofClosing_of_decode {schema : Schema} {name : String} {options : DecodeOptions}
    {error : DecodeError} (h : decode schema name bytes options = .error error)
    : ¬ error.OfClosing := by
  cases typed : schema.message? name with
  | none =>
      simp only [decode, typed] at h
      obtain rfl : .unknownMessage name = error := Except.error.inj h
      exact id
  | some type =>
      rw [decode_eq_of_message? typed] at h
      cases hr : (empty schema type).readAll bytes options.recursionLimit with
      | error cause =>
          rw [hr] at h
          obtain rfl : cause = error := Except.error.inj h
          exact not_ofClosing_of_readAll hr
      | ok read =>
          rw [hr] at h
          simp only at h
          split at h
          · obtain rfl := Except.error.inj h
            exact id
          · cases h

theorem readUnits_of_decode {schema : Schema} {name : String} {options : DecodeOptions}
    (h : decode schema name bytes options = .ok read)
    : ∃ type,
        schema.message? name = some type
        ∧ (empty schema type).readUnits options.recursionLimit options.recursionLimit
            (ofBytes bytes)
          = .ok (read, ⟨bytes.toArray, bytes.length, []⟩) := by
  cases typed : schema.message? name with
  | none =>
      simp only [decode, typed] at h
      cases h
  | some type =>
      refine ⟨type, rfl, readUnits_of_readAll ?_⟩
      rw [decode_eq_of_message? typed] at h
      cases hr : (empty schema type).readAll bytes options.recursionLimit with
      | error cause =>
          rw [hr] at h
          cases h
      | ok record =>
          rw [hr] at h
          simp only at h
          split at h
          · cases h
          · exact h ▸ rfl

theorem not_ofClosing_of_mergeBytes {error : DecodeError}
    (h : record.mergeBytes bytes = .error error)
    : ¬ error.OfClosing := by
  rw [mergeBytes] at h
  cases hr
    : (empty record.schema record.type).readAll bytes ({} : DecodeOptions).recursionLimit with
  | error cause =>
      rw [hr] at h
      obtain rfl : cause = error := Except.error.inj h
      exact not_ofClosing_of_readAll hr
  | ok read =>
      rw [hr] at h
      cases h

/-- However bytes are read, and whatever they are, each unit and each element of a packed run moves
the cursor on; a reading that does not fail ends where its window or the buffer does, with the
windows open that were open before; and no window is ever closed at a wrong place.
-/
theorem decode_closes_windows
    : (∀ (limit levels : Nat) (record read : Record) (cursor moved : Cursor),
        cursor.Sound
        → record.readUnits limit levels cursor = .ok (read, moved)
        → Runs (readUnit (nestedReader limit levels)) record cursor read moved
          ∧ moved = cursor.atLimit)
      ∧ (∀ (limit levels : Nat) (field : Field) (type : String) (record read : Record)
          (cursor moved : Cursor),
          cursor.Sound
          → record.readNested field type (readUnits limit levels) cursor = .ok (read, moved)
          → ∃ (opened : Cursor) (start inner : Record),
              cursor.Encloses opened moved
              ∧ start.readUnits limit levels opened = .ok (inner, opened.atLimit))
      ∧ (∀ (field : Field) (reader : Read Scalar) (record read : Record) (cursor moved : Cursor),
          field.kind.reader? = some reader
          → cursor.Sound
          → inWindow (toEnd (readElement field reader) record) cursor = .ok (read, moved)
          → ∃ opened,
              cursor.Encloses opened moved
              ∧ Runs (readElement field reader) record opened read opened.atLimit)
      ∧ (∀ limit levels, Advances (readUnit (nestedReader limit levels)))
      ∧ (∀ (field : Field) (reader : Read Scalar),
          field.kind.reader? = some reader → Advances (readElement field reader))
      ∧ (∀ (schema : Schema) (name : String) (bytes : Bytes) (options : DecodeOptions)
          (read : Record),
          decode schema name bytes options = .ok read
          → ∃ type,
              schema.message? name = some type
              ∧ (empty schema type).readUnits options.recursionLimit options.recursionLimit
                  (ofBytes bytes)
                = .ok (read, ⟨bytes.toArray, bytes.length, []⟩))
      ∧ (∀ (schema : Schema) (name : String) (bytes : Bytes) (options : DecodeOptions)
          (error : DecodeError),
          decode schema name bytes options = .error error → ¬ error.OfClosing)
      ∧ ∀ (record : Record) (bytes : Bytes) (error : DecodeError),
          record.mergeBytes bytes = .error error → ¬ error.OfClosing := by
  refine ⟨?_, ?_, ?_, ?_, ?_, ?_, ?_, ?_⟩
  · intro limit levels record read cursor moved hs hok
    exact (leads_readUnits limit levels record hs).arrives read moved hok
  · intro limit levels field type record read cursor moved hs hok
    have inside (start : Record) (opened : Cursor) (sound : opened.Sound) :=
      (leads_readUnits limit levels start sound).mono (fun _ _ h => h.2)
    exact (leads_readNested inside field type record hs).arrives read moved hok
  · intro field reader record read cursor moved hr hs hok
    exact (leads_readPacked hr record hs).arrives read moved hok
  · exact advances_readUnit
  · intro field reader hr record next cursor moved hs hok
    exact (leads_readElement hr record hs).arrives next moved hok
  · intro schema name bytes options read hok
    exact readUnits_of_decode hok
  · intro schema name bytes options error herror
    exact not_ofClosing_of_decode herror
  · intro record bytes error herror
    exact not_ofClosing_of_mergeBytes herror

theorem exists_of_isOk {α : Type} {result : Except DecodeError α} (h : result.isOk = true)
    : ∃ value, result = .ok value := by
  cases result with
  | ok value => exact ⟨value, rfl⟩
  | error error => cases h

/-- A person is read in a window of three bytes in a book of five, and a window of five bytes is
refused where only three are left.
-/
theorem decode_closes_windows_people
    : (∃ read,
        (empty AddressBook.schema AddressBook.book).readUnits 1 1
            (ofBytes [0x0A, 0x03, 0x0A, 0x01, 0x41])
          = .ok (read, ⟨#[0x0A, 0x03, 0x0A, 0x01, 0x41], 5, []⟩))
      ∧ (∃ read,
          (empty AddressBook.schema AddressBook.person).readUnits 1 0
              ⟨#[0x0A, 0x03, 0x0A, 0x01, 0x41, 0xFF], 2, [5]⟩
            = .ok (read, ⟨#[0x0A, 0x03, 0x0A, 0x01, 0x41, 0xFF], 5, [5]⟩))
      ∧ ∃ error,
          decode AddressBook.schema AddressBook.book.name [0x0A, 0x05, 0x0A, 0x01, 0x41] ⟨1, false⟩
            = .error error
          ∧ ¬ error.OfClosing := by
  obtain ⟨units, _, _, _, _, whole, errors, _⟩ := decode_closes_windows
  refine ⟨?_, ?_, ?_⟩
  · have read : (decode AddressBook.schema AddressBook.book.name [0x0A, 0x03, 0x0A, 0x01, 0x41]
        ⟨1, false⟩).isOk = true := by
      decide +kernel
    obtain ⟨record, hrecord⟩ := exists_of_isOk read
    obtain ⟨type, typed, hread⟩ := whole _ _ _ _ _ hrecord
    have book : AddressBook.schema.message? AddressBook.book.name = some AddressBook.book := rfl
    obtain rfl := Option.some.inj (book.symm.trans typed)
    exact ⟨record, hread⟩
  · have sound : Cursor.Sound ⟨#[0x0A, 0x03, 0x0A, 0x01, 0x41, 0xFF], 2, [5]⟩ :=
      ⟨List.pairwise_singleton _ _, by decide, by decide⟩
    have read : ((empty AddressBook.schema AddressBook.person).readUnits 1 0
        ⟨#[0x0A, 0x03, 0x0A, 0x01, 0x41, 0xFF], 2, [5]⟩).isOk = true := by
      decide +kernel
    obtain ⟨⟨record, moved⟩, hrecord⟩ := exists_of_isOk read
    obtain ⟨_, rfl⟩ := units 1 0 _ record _ moved sound hrecord
    exact ⟨record, hrecord⟩
  · have refused : decode AddressBook.schema AddressBook.book.name [0x0A, 0x05, 0x0A, 0x01, 0x41]
        ⟨1, false⟩ = .error (.malformed 1 (.window (.openPastBuffer 3 5))) := by
      rfl
    exact ⟨_, refused, errors _ _ _ _ _ refused⟩

end Record

end TagWire
