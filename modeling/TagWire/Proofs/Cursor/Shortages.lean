import TagWire.Proofs.Cursor.Groups

/-!
Reads that run out of bytes. Where only the front of a token may be read, a read that would take the
token fails, and its failure says that bytes are missing.
-/

namespace TagWire

/-- Only the front of some bytes is there: a part of them, or none, but not all. -/
def CutShort (bytes front : Bytes) : Prop := ∃ missing, missing ≠ [] ∧ front ++ missing = bytes

theorem CutShort.length_lt {bytes front : Bytes} (h : CutShort bytes front)
    : front.length < bytes.length := by
  obtain ⟨missing, hne, rfl⟩ := h
  have hpos := List.length_pos_iff.mpr hne
  rw [List.length_append]
  omega

/-- Two stretches in a row are cut short in the first, or behind it. -/
theorem CutShort.of_append {first second front : Bytes} (h : CutShort (first ++ second) front)
    : CutShort first front ∨ ∃ part, front = first ++ part ∧ CutShort second part := by
  obtain ⟨missing, hne, he⟩ := h
  rcases List.append_eq_append_iff.mp he with ⟨between, rfl, rfl⟩ | ⟨part, rfl, rfl⟩
  · by_cases hb : between = []
    · subst hb
      exact .inr ⟨[], by simp, second, hne, rfl⟩
    · exact .inl ⟨between, hb, rfl⟩
  · exact .inr ⟨part, rfl, missing, hne, rfl⟩

/-- The front of a row of tokens ends between two of them, or one of them is cut short; by induction
on the tokens.
-/
theorem exists_cutShort_of_prefix {τ : Type} {bytesOf : τ → Bytes} {tokens : List τ}
    {front : Bytes} (h : front <+: tokens.flatMap bytesOf)
    : ∃ before after,
        tokens = before ++ after
        ∧ (front = before.flatMap bytesOf
          ∨ ∃ token rest part,
              after = token :: rest
              ∧ part ≠ []
              ∧ CutShort (bytesOf token) part
              ∧ front = before.flatMap bytesOf ++ part) := by
  induction tokens generalizing front with
  | nil => exact ⟨[], [], rfl, .inl (List.prefix_nil.mp h)⟩
  | cons token rest ih =>
      obtain ⟨missing, he⟩ := h
      rw [List.flatMap_cons] at he
      rcases List.append_eq_append_iff.mp he with ⟨between, hb, -⟩ | ⟨more, rfl, hr⟩
      · by_cases hf : front = []
        · exact ⟨[], token :: rest, rfl, .inl hf⟩
        · by_cases hn : between = []
          · exact ⟨[token], rest, rfl, .inl (by simp [hb, hn])⟩
          · exact ⟨[], token :: rest, rfl,
              .inr ⟨token, rest, front, rfl, hf, ⟨between, hn, hb.symm⟩, rfl⟩⟩
      · obtain ⟨before, after, rfl, hends⟩ := ih ⟨missing, hr.symm⟩
        refine ⟨token :: before, after, rfl, ?_⟩
        rcases hends with rfl | ⟨next, rest, part, rfl, hne, hcut, rfl⟩
        · exact .inl rfl
        · exact .inr ⟨next, rest, part, rfl, hne, hcut, (List.append_assoc ..).symm⟩

section Payloads

variable {payload : Payload}

/-- A payload that is a number is one that can be read alone. -/
theorem Payload.number_alone (alone : WireKind.varint.payload? payload.bytes = some (payload, []))
    : Varint.take? payload.bytes = some (payload.bytes, []) := by
  obtain ⟨⟨token, rest⟩, ht, he⟩ := Option.map_eq_some_iff.mp alone
  obtain ⟨rfl, rfl⟩ := Prod.mk.inj he
  exact Varint.take?_cuts.alone ht

theorem Payload.word_alone {count : Nat}
    (alone
      : (takeExactly? count payload.bytes).map (fun cut => ((⟨[], cut.1⟩ : Payload), cut.2))
        = some (payload, []))
    : payload.bytes.length = count := by
  obtain ⟨⟨token, rest⟩, ht, he⟩ := Option.map_eq_some_iff.mp alone
  obtain ⟨rfl, rfl⟩ := Prod.mk.inj he
  exact (takeExactly?_eq_some_iff.mp ht).2

/-- A delimited payload is cut short in its length, or in its content. -/
theorem CutShort.of_delimited {front : Bytes}
    (alone : WireKind.lengthDelimited.payload? payload.bytes = some (payload, []))
    (short : CutShort payload.bytes front)
    : Varint.take? payload.length = some (payload.length, [])
      ∧ (CutShort payload.length front
        ∨ ∃ part,
            front = payload.length ++ part ∧ part.length < Varint.value payload.length) := by
  obtain ⟨hl, hwidth⟩ := delimited_payload?_eq_some_iff.mp alone
  refine ⟨Varint.take?_cuts.alone hl, ?_⟩
  rcases short.of_append with hcut | ⟨part, rfl, hcut⟩
  · exact .inl hcut
  · exact .inr ⟨part, rfl, hwidth ▸ hcut.length_lt⟩

end Payloads

/-- The failures that say that bytes are missing: a number has no end, bytes do not stand before the
limit, or a window does not fit into the buffer.
-/
inductive CursorError.OutOfBytes : CursorError → Prop where
  | unterminated (seen : Bytes) : OutOfBytes (.token (.unterminated seen))
  | readPastLimit (offset requested limit : Nat)
    : OutOfBytes (.window (.readPastLimit offset requested limit))
  | openPastBuffer (left requested : Nat) : OutOfBytes (.window (.openPastBuffer left requested))

namespace Read

variable {α β : Type} {cursor : Cursor}

/-- A read fails for want of bytes. -/
def Starves (read : Read α) (cursor : Cursor) : Prop :=
  ∃ cause left, read cursor = .error cause left ∧ cause.OutOfBytes

theorem Starves.bind {read : Read α} (h : read.Starves cursor) (next : α → Read β)
    : Starves (read >>= next) cursor := by
  obtain ⟨cause, left, he, hc⟩ := h
  exact ⟨cause, left, by simp only [Bind.bind, EStateM.bind, he], hc⟩

theorem Starves.after {read : Read α} {next : α → Read β} {value : α} {moved : Cursor}
    (hr : read.outcome? cursor = some (value, moved)) (h : Starves (next value) moved)
    : Starves (read >>= next) cursor := by
  obtain ⟨cause, left, he, hc⟩ := h
  refine ⟨cause, left, ?_, hc⟩
  rw [outcome?] at hr
  simp only [Bind.bind, EStateM.bind]
  cases hread : read cursor with
  | error cause left => simp [hread] at hr
  | ok read state =>
      rw [hread] at hr
      obtain ⟨rfl, rfl⟩ := Prod.mk.inj (Option.some.inj hr)
      exact he

end Read

namespace Cursor

variable {cursor : Cursor}

theorem take_starves (h : cursor.Bounded) {count : Nat} (short : cursor.view.length < count)
    : Read.Starves (take count) cursor := by
  have hlen := h.length_view
  have hfits : ¬ cursor.offset + count ≤ cursor.limit := by omega
  exact ⟨_, _, by rw [take, if_neg hfits], .readPastLimit ..⟩

/-- With no window around it, a window that is too wide does not fit into the buffer. -/
theorem openWindow_starves (h : cursor.Bounded) (hw : cursor.windows = []) {width : Nat}
    (short : cursor.view.length < width)
    : Read.Starves (openWindow width) cursor := by
  have hlen := h.length_view
  have hlimit : cursor.limit = cursor.buffer.size := by rw [limit, hw, List.headD_nil]
  have hsize : cursor.buffer.size < cursor.offset + width := by omega
  exact ⟨_, _, by rw [openWindow, if_pos hsize], .openPastBuffer ..⟩

/-- A number that is cut short ends with a byte that announces another. -/
theorem takeVarint_starves {token : Bytes} (alone : Varint.take? token = some (token, []))
    (h : cursor.Bounded) (short : CutShort token cursor.view)
    : Read.Starves takeVarint cursor := by
  have hlt := short.length_lt
  obtain ⟨hcut, hlen, _⟩ := Varint.take?_eq_some_iff.mp alone
  obtain ⟨missing, hne, rfl⟩ := short
  have high : Varint.AllHigh cursor.view := Varint.allHigh_of_cut? hne hcut
  have length : cursor.view.length ≤ 9 := Nat.le_of_lt_succ (Nat.lt_of_lt_of_le hlt hlen)
  exact ⟨_, _, takeGroups_of_stops [] h rfl high length, .unterminated _⟩

/-- A number that is all there is taken off, whatever follows it. -/
theorem outcome?_takeVarint_append {token part : Bytes}
    (alone : Varint.take? token = some (token, [])) (h : cursor.Bounded)
    (hv : cursor.view = token ++ part)
    : Read.outcome? takeVarint cursor = some (Varint.value token, cursor.leave part) := by
  have htake : Varint.take? (token ++ part) = some (token, part) :=
    Varint.take?_cuts.anywhere alone part
  rw [outcome?_takeVarint h, hv, htake]
  rfl

section Payloads

variable {wire : WireKind} {payload : Payload}

theorem takeDelimited_starves
    (alone : WireKind.lengthDelimited.payload? payload.bytes = some (payload, []))
    (h : cursor.Bounded) (short : CutShort payload.bytes cursor.view)
    : Read.Starves takeDelimited cursor := by
  obtain ⟨hlength, hcut | ⟨part, hv, hpart⟩⟩ := CutShort.of_delimited alone short
  · exact (takeVarint_starves hlength h hcut).bind _
  · refine .after (outcome?_takeVarint_append hlength h hv) (take_starves (h.leave part) ?_)
    rw [h.view_leave hv]
    exact hpart

/-- Stepping over a payload that is cut short fails for want of bytes. -/
theorem skip_starves (alone : wire.payload? payload.bytes = some (payload, []))
    (h : cursor.Bounded) (short : CutShort payload.bytes cursor.view)
    : Read.Starves wire.skip cursor := by
  cases wire with
  | varint => exact (takeVarint_starves (Payload.number_alone alone) h short).bind _
  | fixed64 => exact (take_starves h (Payload.word_alone alone ▸ short.length_lt)).bind _
  | lengthDelimited => exact (takeDelimited_starves alone h short).bind _
  | fixed32 => exact (take_starves h (Payload.word_alone alone ▸ short.length_lt)).bind _

/-- Reading a value of a packable kind from a payload that is cut short fails for want of bytes. -/
theorem reader_starves {kind : Kind} {reader : Read Scalar} (hr : kind.reader? = some reader)
    (alone : kind.wireKind.payload? payload.bytes = some (payload, []))
    (h : cursor.Bounded) (short : CutShort payload.bytes cursor.view)
    : reader.Starves cursor := by
  cases kind <;> simp only [Kind.reader?, Option.some.injEq, reduceCtorEq] at hr
  case fixed32 | sfixed32 | float =>
    subst hr
    exact ((take_starves h (Payload.word_alone alone ▸ short.length_lt)).bind _).bind _
  case fixed64 | sfixed64 | double =>
    subst hr
    exact ((take_starves h (Payload.word_alone alone ▸ short.length_lt)).bind _).bind _
  all_goals
    subst hr
    exact (takeVarint_starves (Payload.number_alone alone) h short).bind _

end Payloads

end Cursor

end TagWire
