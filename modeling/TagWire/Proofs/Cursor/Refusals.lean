import TagWire.Proofs.Cursor.Groups

/-!
Why tokens are refused. The failure of a read says what is wrong with the bytes that it was asked to
take a token from: a number is too wide or has no end there, or fewer bytes follow than it takes.
-/

namespace TagWire

-----------------------------------------------------------------------------------------
-- Tokens that cannot be read
-----------------------------------------------------------------------------------------

/-- Bytes start with a number of more than 64 bits: nine of them announce another one, and the tenth
has more than the one bit that is left, or announces another one itself.
-/
def Varint.Overflows (bytes : Bytes) : Prop :=
  ∃ front last more,
    bytes = front ++ last :: more
    ∧ front.length + 1 = maxLength
    ∧ (∀ byte ∈ front, 128 ≤ byte)
    ∧ 1 < last

/-- Bytes end before a number does: each of them announces another one, and there are fewer than a
number may have.
-/
def Varint.Unfinished (bytes : Bytes) : Prop :=
  bytes.length < maxLength ∧ ∀ byte ∈ bytes, 128 ≤ byte

/-- Why there is no number at the front of some bytes. -/
inductive Varint.Refused (bytes : Bytes) : CursorError → Prop
  | tooWide (h : Varint.Overflows bytes) : Varint.Refused bytes (.token .tooWide)
  | unterminated (h : Varint.Unfinished bytes)
    : Varint.Refused bytes (.token (.unterminated bytes))

/-- Why there is no payload of a wire kind at the front of some bytes. They stand at an offset of a
buffer of some size and may be read up to an end. A length may be refused when as many bytes are
taken, or when a window is opened on them.
-/
inductive WireKind.Refused (size offset stop : Nat) (bytes : Bytes)
    : WireKind → CursorError → Prop
  | number {cause : CursorError} (h : Varint.Refused bytes cause)
    : WireKind.Refused size offset stop bytes .varint cause
  | word32 (short : bytes.length < 4)
    : WireKind.Refused size offset stop bytes .fixed32 (.window (.readPastLimit offset 4 stop))
  | word64 (short : bytes.length < 8)
    : WireKind.Refused size offset stop bytes .fixed64 (.window (.readPastLimit offset 8 stop))
  | length {cause : CursorError} (h : Varint.Refused bytes cause)
    : WireKind.Refused size offset stop bytes .lengthDelimited cause
  | content {length after : Bytes} (hl : Varint.take? bytes = some (length, after))
    (short : after.length < Varint.value length)
    : WireKind.Refused size offset stop bytes .lengthDelimited
        (.window (.readPastLimit (offset + length.length) (Varint.value length) stop))
  | pastBuffer {length after : Bytes} (hl : Varint.take? bytes = some (length, after))
    (short : after.length < Varint.value length)
    (past : size < offset + length.length + Varint.value length)
    : WireKind.Refused size offset stop bytes .lengthDelimited
        (.window (.openPastBuffer (size - (offset + length.length)) (Varint.value length)))
  | pastWindow {length after : Bytes} (hl : Varint.take? bytes = some (length, after))
    (short : after.length < Varint.value length)
    (inside : offset + length.length + Varint.value length ≤ size)
    : WireKind.Refused size offset stop bytes .lengthDelimited
        (.window (.openPastWindow (stop - (offset + length.length)) (Varint.value length)))

namespace Read

variable {α β : Type} {cursor left : Cursor} {cause : CursorError}

/-- Of two reads in a row, the first fails, or it does not and the second does. -/
theorem bind_eq_error {read : Read α} {next : α → Read β}
    (h : (read >>= next) cursor = .error cause left)
    : (∃ left, read cursor = .error cause left)
      ∨ ∃ value moved,
          read.outcome? cursor = some (value, moved) ∧ next value moved = .error cause left := by
  simp only [bind, EStateM.bind] at h
  cases hr : read cursor with
  | error other between =>
      rw [hr] at h
      obtain ⟨rfl, _⟩ := EStateM.Result.error.inj h
      exact .inl ⟨between, rfl⟩
  | ok value moved =>
      rw [hr] at h
      exact .inr ⟨value, moved, by rw [outcome?, hr], h⟩

end Read

namespace Cursor

variable {cursor left : Cursor} {cause : CursorError}

/-- A number is refused where it gets too wide, or where the bytes end. -/
theorem takeVarint_refused (hb : cursor.Bounded) (h : takeVarint cursor = .error cause left)
    : Varint.Refused cursor.view cause := by
  have begins := Varint.opens 9 cursor.view
  generalize hv : cursor.view = bytes at begins
  cases begins with
  | ends high low length narrow =>
      cases h.symm.trans (takeGroups_of_ends [] hb hv high low length narrow)
  | @wide front last more high length wide =>
      obtain ⟨rfl, _⟩ :=
        EStateM.Result.error.inj (h.symm.trans (takeGroups_of_wide [] hb hv high length wide))
      exact .tooWide ⟨front, last, more, rfl, congrArg Nat.succ length, high, wide⟩
  | stops high length =>
      obtain ⟨rfl, _⟩ :=
        EStateM.Result.error.inj (h.symm.trans (takeGroups_of_stops [] hb hv high length))
      exact .unterminated ⟨Nat.lt_succ_of_le length, high⟩

theorem take_refused (hb : cursor.Bounded) {count : Nat}
    (h : take count cursor = .error cause left)
    : cursor.view.length < count
      ∧ cause = .window (.readPastLimit cursor.offset count cursor.limit) := by
  have hlen := hb.length_view
  have ho := hb.offset_le
  simp only [take] at h
  split at h
  · cases h
  · next hfits =>
      obtain ⟨rfl, _⟩ := EStateM.Result.error.inj h
      exact ⟨by omega, rfl⟩

/-- What stands after a length, where the length has been read. -/
theorem takeVarint_split (hb : cursor.Bounded) {value : Nat} {moved : Cursor}
    (h : takeVarint.outcome? cursor = some (value, moved))
    : ∃ token after,
        Varint.take? cursor.view = some (token, after)
        ∧ value = Varint.value token
        ∧ moved = cursor.leave after := by
  rw [outcome?_takeVarint hb] at h
  obtain ⟨⟨token, after⟩, ht, he⟩ := Option.map_eq_some_iff.mp h
  obtain ⟨rfl, rfl⟩ := Prod.mk.inj he
  exact ⟨token, after, ht, rfl, rfl⟩

/-- Why there is no payload of a wire kind where a cursor stands. -/
def Refuses (cursor : Cursor) (wire : WireKind) (cause : CursorError) : Prop :=
  wire.Refused cursor.buffer.size cursor.offset cursor.limit cursor.view cause

theorem takeDelimited_refused (hb : cursor.Bounded) (h : takeDelimited cursor = .error cause left)
    : cursor.Refuses .lengthDelimited cause := by
  obtain ⟨_, failed⟩ | ⟨width, moved, read, failed⟩ := Read.bind_eq_error h
  · exact .length (takeVarint_refused hb failed)
  · obtain ⟨length, after, hl, rfl, rfl⟩ := takeVarint_split hb read
    have hv := Varint.take?_cuts.divides hl
    obtain ⟨short, rfl⟩ := take_refused (hb.leave after) failed
    rw [hb.view_leave hv] at short
    rw [hb.offset_leave hv]
    exact .content hl short

/-- A window is refused if it is wider than the bytes that may be read. -/
theorem openWindow_refused (hb : cursor.Bounded) {length after : Bytes}
    (hl : Varint.take? cursor.view = some (length, after))
    (h : openWindow (Varint.value length) (cursor.leave after) = .error cause left)
    : cursor.Refuses .lengthDelimited cause := by
  have hv : cursor.view = length ++ after := Varint.take?_cuts.divides hl
  have hlen := (hb.leave after).length_view
  have ho := (hb.leave after).offset_le
  have hsize := (hb.leave after).limit_le
  rw [hb.view_leave hv, hb.offset_leave hv] at hlen
  rw [hb.offset_leave hv] at ho
  simp only [openWindow, hb.offset_leave hv] at h
  split at h
  · next past =>
      obtain ⟨rfl, _⟩ := EStateM.Result.error.inj h
      exact .pastBuffer hl (by omega) past
  · next inside =>
      split at h
      · next past =>
          obtain ⟨rfl, _⟩ := EStateM.Result.error.inj h
          exact .pastWindow hl (by omega) (Nat.not_lt.mp inside)
      · cases h

theorem skip_refused (hb : cursor.Bounded) {wire : WireKind}
    (h : wire.skip cursor = .error cause left)
    : cursor.Refuses wire cause := by
  cases wire <;> obtain ⟨_, failed⟩ | ⟨_, _, _, done⟩ := Read.bind_eq_error h
  case varint.inl => exact .number (takeVarint_refused hb failed)
  case fixed64.inl =>
    obtain ⟨short, rfl⟩ := take_refused hb failed
    exact .word64 short
  case lengthDelimited.inl => exact takeDelimited_refused hb failed
  case fixed32.inl =>
    obtain ⟨short, rfl⟩ := take_refused hb failed
    exact .word32 short
  all_goals cases done

theorem reader_refused (hb : cursor.Bounded) {kind : Kind} {reader : Read Scalar}
    (hr : kind.reader? = some reader) (h : reader cursor = .error cause left)
    : cursor.Refuses kind.wireKind cause := by
  cases kind <;> simp only [Kind.reader?, Option.some.injEq, reduceCtorEq] at hr
  case fixed32 | sfixed32 | float =>
    subst hr
    obtain ⟨_, failed⟩ | ⟨_, _, _, done⟩ := Read.bind_eq_error h
    · obtain ⟨_, failed⟩ | ⟨_, _, _, done⟩ := Read.bind_eq_error failed
      · obtain ⟨short, rfl⟩ := take_refused hb failed
        exact .word32 short
      · cases done
    · cases done
  case fixed64 | sfixed64 | double =>
    subst hr
    obtain ⟨_, failed⟩ | ⟨_, _, _, done⟩ := Read.bind_eq_error h
    · obtain ⟨_, failed⟩ | ⟨_, _, _, done⟩ := Read.bind_eq_error failed
      · obtain ⟨short, rfl⟩ := take_refused hb failed
        exact .word64 short
      · cases done
    · cases done
  all_goals
    subst hr
    obtain ⟨_, failed⟩ | ⟨_, _, _, done⟩ := Read.bind_eq_error h
    · exact .number (takeVarint_refused hb failed)
    · cases done

end Cursor

end TagWire
