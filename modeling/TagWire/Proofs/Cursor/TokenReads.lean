import TagWire.Decoding.Scalar
import TagWire.Proofs.Cursor.Views
import TagWire.Proofs.Wire.Scalars

/-!
Reading tokens from a cursor does what cutting them off its view does, and fails exactly where they
cannot be cut off.
-/

namespace TagWire

namespace Cursor

variable {cursor : Cursor}

theorem takeByte_of_nil (h : cursor.Bounded) (hv : cursor.view = [])
    : ∃ cause, takeByte cursor = .error cause cursor := by
  have hlen := h.length_view
  rw [hv, List.length_nil] at hlen
  have hn : ¬ cursor.offset < cursor.limit := by omega
  exact ⟨_, by rw [takeByte, if_neg hn]⟩

theorem takeByte_of_cons (h : cursor.Bounded) {byte : UInt8} {rest : Bytes}
    (hv : cursor.view = [byte] ++ rest)
    : takeByte cursor = .ok byte (cursor.leave rest) := by
  have hlen := h.length_view
  have hl := h.limit_le
  rw [hv, List.length_append, List.length_singleton] at hlen
  have hlt : cursor.offset < cursor.limit := by omega
  have hsize : cursor.offset < cursor.buffer.size := by omega
  have hbyte : cursor.buffer[cursor.offset]? = some byte := by
    have hhead : cursor.view[0]? = some byte := by rw [hv]; rfl
    rw [view, slice_eq, List.getElem?_take_of_lt (by omega), List.getElem?_drop] at hhead
    simpa using hhead
  have hoff : (cursor.leave rest).offset = cursor.offset + 1 :=
    h.offset_leave hv
  have hcursor : cursor.leave rest = { cursor with offset := cursor.offset + 1 } := by
    rw [← hoff]
    rfl
  rw [takeByte, if_pos hlt, hbyte, hcursor]

theorem outcome?_takeGroups_cons (left : Nat) (seen : Bytes) (h : cursor.Bounded) {byte : UInt8}
    {rest : Bytes} (hv : cursor.view = [byte] ++ rest)
    : Read.outcome? (takeGroups (left + 1) seen) cursor
      = if left = 0 ∧ 1 < byte then none
        else if byte < 128 then some (byte.toNat, cursor.leave rest)
        else
          (Read.outcome? (takeGroups left (seen ++ [byte])) (cursor.leave rest)).map
            (fun out => (byte.toNat - 128 + 128 * out.1, out.2)) := by
  simp only [Read.outcome?, takeGroups, takeByte_of_cons h hv]
  by_cases hlast : left = 0 ∧ 1 < byte
  · rw [if_pos hlast, if_pos hlast]
  · rw [if_neg hlast, if_neg hlast]
    by_cases hlow : byte < 128
    · rw [if_pos hlow, if_pos hlow]
    · rw [if_neg hlow, if_neg hlow]
      cases takeGroups left (seen ++ [byte]) (cursor.leave rest) <;> rfl

/-- Reading groups takes the bytes up to the first without the high bit, if they are no more than
allowed and their number is not too wide, by induction on the bytes that are allowed.
-/
theorem outcome?_takeGroups (left : Nat) (seen : Bytes) (h : cursor.Bounded)
    : Read.outcome? (takeGroups left seen) cursor
      = (Varint.cut? cursor.view).bind (fun cut =>
          if Varint.Within left cut.1 then some (Varint.value cut.1, cursor.leave cut.2)
          else none) := by
  induction left generalizing cursor seen with
  | zero =>
      cases hc : Varint.cut? cursor.view with
      | none => rfl
      | some cut =>
          have hne : cut.1 ≠ [] := Varint.cut?_cuts.nonempty hc
          rw [Option.bind_some, if_neg (Varint.not_within_zero hne)]
          rfl
  | succ left ih =>
      cases hv : cursor.view with
      | nil =>
          obtain ⟨cause, hbyte⟩ := takeByte_of_nil h hv
          simp only [Read.outcome?, takeGroups, hbyte, Varint.cut?, Option.bind_none]
      | cons byte rest =>
          have hcons : cursor.view = [byte] ++ rest := hv
          rw [outcome?_takeGroups_cons left seen h hcons, Varint.cut?]
          by_cases hlow : byte < 128
          · have hvalue : Varint.value [byte] = byte.toNat :=
              Nat.mod_eq_of_lt (UInt8.lt_iff_toNat_lt.mp hlow)
            simp only [if_pos hlow, Option.bind_some, Varint.within_singleton hlow, hvalue, ite_not]
          · have hview : (cursor.leave rest).view = rest := h.view_leave hcons
            rw [if_neg hlow, if_neg hlow, ih (seen ++ [byte]) (h.leave rest), hview]
            cases hc : Varint.cut? rest with
            | none => simp
            | some cut =>
                have hne : cut.1 ≠ [] := Varint.cut?_cuts.nonempty hc
                have hvalue : Varint.value (byte :: cut.1)
                    = byte.toNat - 128 + 128 * Varint.value cut.1 := by
                  have hbound := byte.toNat_lt
                  have hhigh : ¬ byte.toNat < 128 := fun hl => hlow (UInt8.lt_iff_toNat_lt.mpr hl)
                  rw [Varint.value]
                  omega
                simp only [Option.map_some, Option.bind_some, Varint.within_cons hlow hne, hvalue,
                  leave_leave]
                -- The reader refuses a last group that is too wide before it looks for the next.
                by_cases hlast : left = 0 ∧ 1 < byte
                · rw [if_pos hlast, hlast.1, if_neg (Varint.not_within_zero hne)]
                · rw [if_neg hlast]
                  split <;> rfl

theorem outcome?_takeVarint (h : cursor.Bounded)
    : Read.outcome? takeVarint cursor
      = (Varint.take? cursor.view).map (fun cut => (Varint.value cut.1, cursor.leave cut.2)) := by
  rw [takeVarint, outcome?_takeGroups _ _ h, Varint.take?]
  cases hc : Varint.cut? cursor.view with
  | none => rfl
  | some cut =>
      simp only [Option.bind_some, Option.filter_some, Varint.within_maxLength, decide_eq_true_eq]
      split <;> rfl

theorem outcome?_take (h : cursor.Bounded) (count : Nat)
    : Read.outcome? (take count) cursor
      = (takeExactly? count cursor.view).map (fun cut => (cut.1, cursor.leave cut.2)) := by
  have hlen := h.length_view
  have ho := h.offset_le
  by_cases hfits : cursor.offset + count ≤ cursor.limit
  · have hcount : count ≤ cursor.view.length := by omega
    have htoken : cursor.slice cursor.offset (cursor.offset + count) = cursor.view.take count := by
      rw [view, slice_eq, slice_eq, List.take_take, Nat.min_eq_left (by omega),
        Nat.add_sub_cancel_left]
    have hmoved : { cursor with offset := cursor.offset + count }
        = cursor.leave (cursor.view.drop count) := by
      have hl : cursor.limit - (cursor.view.length - count) = cursor.offset + count := by omega
      simp only [leave, List.length_drop, hl]
    simp only [Read.outcome?, take, takeExactly?, if_pos hfits, if_pos hcount, Option.map_some,
      htoken, hmoved]
  · have hcount : ¬ count ≤ cursor.view.length := by omega
    simp only [Read.outcome?, take, takeExactly?, if_neg hfits, if_neg hcount, Option.map_none]

theorem outcome?_takeDelimited (h : cursor.Bounded)
    : Read.outcome? takeDelimited cursor
      = (WireKind.lengthDelimited.payload? cursor.view).map (fun cut =>
          (cut.1.content, cursor.leave cut.2)) := by
  simp only [takeDelimited, Read.outcome?_bind, outcome?_takeVarint h, WireKind.payload?]
  cases hl : Varint.take? cursor.view with
  | none => rfl
  | some length =>
      have hview := h.view_leave (Varint.take?_cuts.divides hl)
      simp only [Option.map_some, Option.bind_some, outcome?_take (h.leave length.2), hview,
        leave_leave, Option.map_map]
      rfl

theorem outcome?_skip (h : cursor.Bounded) (wire : WireKind)
    : Read.outcome? wire.skip cursor
      = (wire.payload? cursor.view).map (fun cut => ((), cursor.leave cut.2)) := by
  cases wire with
  | varint =>
      simp only [WireKind.skip, Read.outcome?_bind, outcome?_takeVarint h, WireKind.payload?]
      cases Varint.take? cursor.view <;> rfl
  | fixed64 =>
      simp only [WireKind.skip, Read.outcome?_bind, outcome?_take h, WireKind.payload?]
      cases takeExactly? 8 cursor.view <;> rfl
  | lengthDelimited =>
      simp only [WireKind.skip, Read.outcome?_bind, outcome?_takeDelimited h]
      cases WireKind.lengthDelimited.payload? cursor.view <;> rfl
  | fixed32 =>
      simp only [WireKind.skip, Read.outcome?_bind, outcome?_take h, WireKind.payload?]
      cases takeExactly? 4 cursor.view <;> rfl

/-- The reader of a packable kind reads what the content of a payload spells. -/
theorem outcome?_reader (h : cursor.Bounded) {kind : Kind} {reader : Read Scalar}
    (hr : kind.reader? = some reader)
    : Read.outcome? reader cursor
      = (kind.wireKind.payload? cursor.view).bind (fun cut =>
          (kind.scalar? cut.1.content).map (fun value => (value, cursor.leave cut.2))) := by
  cases kind <;> simp only [Kind.reader?, Option.some.injEq, reduceCtorEq] at hr
  case fixed32 | sfixed32 | float =>
    subst hr
    simp only [takeFixed32, Read.outcome?_bind, outcome?_take h, Kind.wireKind, WireKind.payload?]
    cases takeExactly? 4 cursor.view <;> rfl
  case fixed64 | sfixed64 | double =>
    subst hr
    simp only [takeFixed64, Read.outcome?_bind, outcome?_take h, Kind.wireKind, WireKind.payload?]
    cases takeExactly? 8 cursor.view <;> rfl
  all_goals
    subst hr
    simp only [Read.outcome?_bind, outcome?_takeVarint h, Kind.wireKind, WireKind.payload?]
    cases Varint.take? cursor.view <;> rfl

end Cursor

end TagWire
