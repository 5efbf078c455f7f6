import TagWire.Cursor.Basic

/-!
A cursor seen as the bytes that it may still read. What a read does to a cursor follows from these
bytes alone: it takes a token off their front and leaves the cursor before the rest.
-/

namespace TagWire

namespace Cursor

/-- A cursor stands within its limit, and the limit within the buffer. -/
structure Bounded (cursor : Cursor) : Prop where
  offset_le : cursor.offset ≤ cursor.limit
  limit_le : cursor.limit ≤ cursor.buffer.size

/-- The bytes that a cursor may still read. -/
def view (cursor : Cursor) : Bytes := cursor.slice cursor.offset cursor.limit

/-- A cursor moved on to where only the given number of bytes are left. -/
def leave (cursor : Cursor) (rest : Bytes) : Cursor :=
  { cursor with offset := cursor.limit - rest.length }

theorem slice_eq (cursor : Cursor) (start stop : Nat)
    : cursor.slice start stop = (cursor.buffer.toList.drop start).take (stop - start) := by
  simp [slice, List.extract_eq_take_drop]

theorem ofBytes_bounded (bytes : Bytes) : (ofBytes bytes).Bounded :=
  ⟨Nat.zero_le _, by simp [ofBytes, limit]⟩

@[simp] theorem view_ofBytes (bytes : Bytes) : (ofBytes bytes).view = bytes := by
  simp [view, slice_eq, ofBytes, limit]

@[simp] theorem limit_leave (cursor : Cursor) (rest : Bytes)
    : (cursor.leave rest).limit = cursor.limit :=
  rfl

@[simp] theorem leave_leave (cursor : Cursor) (rest more : Bytes)
    : (cursor.leave rest).leave more = cursor.leave more :=
  rfl

theorem Bounded.length_view {cursor : Cursor} (h : cursor.Bounded)
    : cursor.view.length = cursor.limit - cursor.offset := by
  have hl := h.limit_le
  simp only [view, slice_eq, List.length_take, List.length_drop, Array.length_toList]
  omega

theorem Bounded.remaining_eq {cursor : Cursor} (h : cursor.Bounded)
    : cursor.remaining = cursor.view.length :=
  h.length_view.symm

/-- Leaving all that can be read leaves a cursor where it is. -/
theorem Bounded.leave_view {cursor : Cursor} (h : cursor.Bounded)
    : cursor.leave cursor.view = cursor := by
  have ho := h.offset_le
  have he : cursor.limit - (cursor.limit - cursor.offset) = cursor.offset := by omega
  simp only [leave, h.length_view, he]

section Divided

variable {cursor : Cursor} {token rest : Bytes}

/-- The offset moves on by the length of what was taken. -/
theorem Bounded.offset_leave (h : cursor.Bounded) (hv : cursor.view = token ++ rest)
    : (cursor.leave rest).offset = cursor.offset + token.length := by
  have hlen := h.length_view
  have ho := h.offset_le
  rw [hv, List.length_append] at hlen
  simp only [leave]
  omega

theorem Bounded.leave (h : cursor.Bounded) (rest : Bytes) : (cursor.leave rest).Bounded := by
  refine ⟨?_, h.limit_le⟩
  rw [limit_leave]
  exact Nat.sub_le _ _

theorem Bounded.view_leave (h : cursor.Bounded) (hv : cursor.view = token ++ rest)
    : (cursor.leave rest).view = rest := by
  have ho := h.offset_leave hv
  have hlen := h.length_view
  rw [view, slice_eq, limit_leave, ho, ← List.drop_drop, Nat.sub_add_eq, ← List.drop_take,
    show (cursor.leave rest).buffer = cursor.buffer from rfl, ← slice_eq, ← view, hv,
    List.drop_left]

/-- Looking back from where a token was taken gives the token. -/
theorem Bounded.lookback_leave (h : cursor.Bounded) (hv : cursor.view = token ++ rest)
    : (cursor.leave rest).lookback cursor.offset = token := by
  have ho := h.offset_leave hv
  have hlen := h.length_view
  rw [hv, List.length_append] at hlen
  calc (cursor.leave rest).lookback cursor.offset
    _ = (cursor.buffer.toList.drop cursor.offset).take token.length := by
        rw [lookback, slice_eq, ho, Nat.add_sub_cancel_left]
        rfl
    _ = cursor.view.take token.length := by
        rw [view, slice_eq, List.take_take, Nat.min_eq_left (by omega)]
    _ = token := by rw [hv, List.take_left]

end Divided

end Cursor

namespace Read

variable {α β : Type}

/-- What a read gives, and the cursor after it, unless it fails. -/
def outcome? (read : Read α) (cursor : Cursor) : Option (α × Cursor) :=
  match read cursor with
  | .ok value cursor => some (value, cursor)
  | .error _ _ => none

@[simp] theorem outcome?_pure (value : α) (cursor : Cursor)
    : outcome? (pure value : Read α) cursor = some (value, cursor) :=
  rfl

@[simp] theorem outcome?_bind (read : Read α) (next : α → Read β) (cursor : Cursor)
    : outcome? (read >>= next) cursor
      = (outcome? read cursor).bind (fun out => outcome? (next out.1) out.2) := by
  simp only [outcome?, bind, EStateM.bind]
  cases read cursor <;> rfl

end Read

end TagWire
