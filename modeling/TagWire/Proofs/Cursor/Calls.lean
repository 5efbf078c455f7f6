import TagWire.Proofs.Cursor.Varints

/-!
Calls on a cursor, in any order, each of which may fail. The open windows lie one in the other, and
the offset stays in the innermost and only goes up. From this follows what every call does.
-/

namespace TagWire

namespace Cursor

-----------------------------------------------------------------------------------------
-- Calls
-----------------------------------------------------------------------------------------

/-- A call on a cursor. Bytes may be asked for in any number, and windows of any width. -/
inductive Call where
  | takeByte
  | take (count : Nat)
  | takeVarint
  | takeFixed32
  | takeFixed64
  | takeDelimited
  | openWindow (width : Nat)
  | closeWindow
  | lookback (start : Nat)

/-- What a call gives if it does not fail. -/
inductive Answer where
  | none
  | byte (byte : UInt8)
  | bytes (bytes : Bytes)
  | number (n : Nat)
  | word32 (word : UInt32)
  | word64 (word : UInt64)

/-- Make a call. -/
def Call.make : Call → Read Answer
  | takeByte => do return .byte (← Cursor.takeByte)
  | take count => do return .bytes (← Cursor.take count)
  | takeVarint => do return .number (← Cursor.takeVarint)
  | takeFixed32 => do return .word32 (← Cursor.takeFixed32)
  | takeFixed64 => do return .word64 (← Cursor.takeFixed64)
  | takeDelimited => do return .bytes (← Cursor.takeDelimited)
  | openWindow width => do
      Cursor.openWindow width
      return .none
  | closeWindow => do
      Cursor.closeWindow
      return .none
  | lookback start => do return .bytes ((← get).lookback start)

/-- The cursor that a read leaves behind, whether it fails or not. -/
def leftBy {α : Type} (read : Read α) (cursor : Cursor) : Cursor :=
  match read cursor with
  | .ok _ left => left
  | .error _ left => left

/-- The cursor after calls that are made one after the other. -/
def afterCalls (calls : List Call) (cursor : Cursor) : Cursor :=
  calls.foldl (fun cursor call => leftBy call.make cursor) cursor

-----------------------------------------------------------------------------------------
-- Windows in windows
-----------------------------------------------------------------------------------------

/-- The ends of the open windows do not go down from the innermost outwards, none is past the
buffer, and the offset is not past the innermost.
-/
structure Sound (cursor : Cursor) : Prop where
  ordered : cursor.windows.Pairwise (· ≤ ·)
  inBuffer : ∀ stop ∈ cursor.windows, stop ≤ cursor.buffer.size
  offset_le : cursor.offset ≤ cursor.limit

variable {cursor moved : Cursor}

theorem ofBytes_sound (bytes : Bytes) : (ofBytes bytes).Sound :=
  ⟨.nil, fun _ h => absurd h List.not_mem_nil, Nat.zero_le _⟩

/-- The innermost window ends first. -/
theorem Sound.limit_le_of_mem (h : cursor.Sound) {stop : Nat} (hm : stop ∈ cursor.windows)
    : cursor.limit ≤ stop := by
  obtain ⟨ordered, _, _⟩ := h
  rw [limit]
  cases hw : cursor.windows with
  | nil => simp [hw] at hm
  | cons innermost outer =>
      rw [hw] at ordered hm
      rcases List.mem_cons.mp hm with rfl | houter
      · exact Nat.le_refl _
      · exact (List.pairwise_cons.mp ordered).1 stop houter

theorem Sound.bounded (h : cursor.Sound) : cursor.Bounded := by
  refine ⟨h.offset_le, ?_⟩
  cases hw : cursor.windows with
  | nil => simp [limit, hw]
  | cons innermost outer =>
      have hin := h.inBuffer innermost (by simp [hw])
      simpa [limit, hw] using hin

/-- A cursor has read on in the windows that were open. -/
structure ReadsOn (cursor moved : Cursor) : Prop where
  buffer : moved.buffer = cursor.buffer
  windows : moved.windows = cursor.windows
  offset_le : cursor.offset ≤ moved.offset
  le_limit : moved.offset ≤ cursor.limit

theorem ReadsOn.limit_eq (h : cursor.ReadsOn moved) : moved.limit = cursor.limit := by
  rw [limit, limit, h.buffer, h.windows]

theorem Sound.readsOn_self (h : cursor.Sound) : cursor.ReadsOn cursor :=
  ⟨rfl, rfl, Nat.le_refl _, h.offset_le⟩

theorem ReadsOn.trans {last : Cursor} (first : cursor.ReadsOn moved) (second : moved.ReadsOn last)
    : cursor.ReadsOn last where
  buffer := second.buffer.trans first.buffer
  windows := second.windows.trans first.windows
  offset_le := Nat.le_trans first.offset_le second.offset_le
  le_limit := first.limit_eq ▸ second.le_limit

theorem ReadsOn.sound (h : cursor.ReadsOn moved) (hs : cursor.Sound) : moved.Sound where
  ordered := h.windows ▸ hs.ordered
  inBuffer := by
    rw [h.windows, h.buffer]
    exact hs.inBuffer
  offset_le := h.limit_eq ▸ h.le_limit

-----------------------------------------------------------------------------------------
-- Reading on
-----------------------------------------------------------------------------------------

/-- A refusal to read, and not to open or close a window. -/
def OfReading : CursorError → Prop
  | .token _ | .window (.readPastLimit _ _ _) => True
  | .window _ => False

section Reads

variable {α β : Type} {least further count : Nat}

/-- A result that leaves a cursor of which something holds, or a refusal of which something else
does.
-/
inductive Arrives (there : Cursor → Prop) (refused : CursorError → Cursor → Prop)
  : EStateM.Result CursorError Cursor α → Prop
  | ok {value : α} {moved : Cursor} (h : there moved) : Arrives there refused (.ok value moved)
  | error {cause : CursorError} {moved : Cursor} (h : refused cause moved)
    : Arrives there refused (.error cause moved)

theorem Arrives.mono {there near : Cursor → Prop} {refused given : CursorError → Cursor → Prop}
    {result : EStateM.Result CursorError Cursor α} (h : Arrives there refused result)
    (hok : ∀ moved, there moved → near moved)
    (herror : ∀ cause moved, refused cause moved → given cause moved)
    : Arrives near given result := by
  cases h with
  | ok h => exact .ok (hok _ h)
  | error h => exact .error (herror _ _ h)

/-- A read that only reads on, wherever the windows are in order. If it does not fail it takes some
number of bytes at least.
-/
def Forward (least : Nat) (read : Read α) : Prop :=
  ∀ cursor : Cursor,
    cursor.Sound
    → Arrives (fun moved => cursor.ReadsOn moved ∧ cursor.offset + least ≤ moved.offset)
        (fun cause moved => OfReading cause ∧ cursor.ReadsOn moved) (read cursor)

theorem forward_pure (value : α) : Forward 0 (pure value : Read α) :=
  fun _ h => .ok ⟨h.readsOn_self, Nat.le_refl _⟩

theorem Forward.bind {read : Read α} {next : α → Read β} (h : Forward least read)
    (hn : ∀ value, Forward further (next value))
    : Forward (least + further) (read >>= next) := by
  intro cursor hs
  have first := h cursor hs
  simp only [Bind.bind, EStateM.bind]
  cases hr : read cursor with
  | error cause moved =>
      rw [hr] at first
      cases first with
      | error h => exact .error h
  | ok value moved =>
      rw [hr] at first
      cases first with
      | ok h =>
          obtain ⟨readsOn, taken⟩ := h
          apply (hn value moved (readsOn.sound hs)).mono
          · rintro last ⟨onward, more⟩
            exact ⟨readsOn.trans onward, by omega⟩
          · rintro cause last ⟨ofReading, onward⟩
            exact ⟨ofReading, readsOn.trans onward⟩

theorem Forward.weaken {read : Read α} (h : Forward least read) (hle : further ≤ least)
    : Forward further read :=
  fun cursor hs => (h cursor hs).mono (fun _ ⟨readsOn, taken⟩ => ⟨readsOn, by omega⟩)
    (fun _ _ refused => refused)

theorem Forward.map {read : Read α} (h : Forward least read) (answer : α → β)
    : Forward least (do return answer (← read)) :=
  h.bind (fun value => forward_pure (answer value))

end Reads

theorem take_of_le {count : Nat} (h : cursor.offset + count ≤ cursor.limit)
    : take count cursor
      = .ok (cursor.slice cursor.offset (cursor.offset + count))
          { cursor with offset := cursor.offset + count } :=
  if_pos h

theorem take_of_lt {count : Nat} (h : cursor.limit < cursor.offset + count)
    : take count cursor
      = .error (.window (.readPastLimit cursor.offset count cursor.limit)) cursor :=
  if_neg (Nat.not_le.mpr h)

theorem forward_take (count : Nat) : Forward count (take count) := by
  intro cursor hs
  rcases Nat.lt_or_ge cursor.limit (cursor.offset + count) with h | h
  · rw [take_of_lt h]
    exact .error ⟨trivial, hs.readsOn_self⟩
  · rw [take_of_le h]
    exact .ok ⟨⟨rfl, rfl, Nat.le_add_right _ _, h⟩, Nat.le_refl _⟩

theorem Sound.takeByte_of_lt (hs : cursor.Sound) (h : cursor.offset < cursor.limit)
    : ∃ byte,
        cursor.buffer[cursor.offset]? = some byte
        ∧ takeByte cursor = .ok byte { cursor with offset := cursor.offset + 1 } := by
  have hsize := Nat.lt_of_lt_of_le h hs.bounded.limit_le
  have hbyte := Array.getElem?_eq_getElem hsize
  exact ⟨cursor.buffer[cursor.offset], hbyte, by rw [takeByte, if_pos h, hbyte]⟩

theorem takeByte_of_le (h : cursor.limit ≤ cursor.offset)
    : takeByte cursor
      = .error (.window (.readPastLimit cursor.offset 1 cursor.limit)) cursor :=
  if_neg (Nat.not_lt.mpr h)

theorem forward_takeByte : Forward 1 takeByte := by
  intro cursor hs
  rcases Nat.lt_or_ge cursor.offset cursor.limit with h | h
  · obtain ⟨byte, _, htake⟩ := hs.takeByte_of_lt h
    rw [htake]
    exact .ok ⟨⟨rfl, rfl, Nat.le_add_right _ _, h⟩, Nat.le_refl _⟩
  · rw [takeByte_of_le h]
    exact .error ⟨trivial, hs.readsOn_self⟩

theorem Sound.readsOn_add (h : cursor.Sound) {count : Nat} (hcount : count ≤ cursor.view.length)
    : cursor.ReadsOn { cursor with offset := cursor.offset + count } := by
  have hoffset := h.offset_le
  rw [h.bounded.length_view] at hcount
  refine ⟨rfl, rfl, Nat.le_add_right _ _, ?_⟩
  show cursor.offset + count ≤ cursor.limit
  omega

theorem forward_takeVarint : Forward 1 takeVarint := by
  intro cursor hs
  obtain ⟨count, outcome, begins⟩ := Varint.exists_begins cursor.view
  have onward := hs.readsOn_add begins.count_le
  rw [takeVarint_of_begins hs.bounded begins]
  cases begins with
  | ends => exact .ok ⟨onward, Nat.add_le_add_left (Nat.le_add_left 1 _) _⟩
  | tooWide => exact .error ⟨trivial, onward⟩
  | unterminated => exact .error ⟨trivial, onward⟩

theorem forward_takeFixed32 : Forward 4 takeFixed32 := (forward_take 4).map _

theorem forward_takeFixed64 : Forward 8 takeFixed64 := (forward_take 8).map _

theorem forward_takeDelimited : Forward 1 takeDelimited :=
  forward_takeVarint.bind (fun count => (forward_take count).weaken (Nat.zero_le count))

-----------------------------------------------------------------------------------------
-- Opening and closing
-----------------------------------------------------------------------------------------

/-- A cursor that something was done with: on the same buffer, not further back, and with its
windows in order.
-/
structure KeepsOn (cursor moved : Cursor) : Prop where
  buffer : moved.buffer = cursor.buffer
  offset_le : cursor.offset ≤ moved.offset
  sound : moved.Sound

theorem Sound.keepsOn_self (h : cursor.Sound) : cursor.KeepsOn cursor :=
  ⟨rfl, Nat.le_refl _, h⟩

theorem KeepsOn.trans {last : Cursor} (first : cursor.KeepsOn moved) (second : moved.KeepsOn last)
    : cursor.KeepsOn last where
  buffer := second.buffer.trans first.buffer
  offset_le := Nat.le_trans first.offset_le second.offset_le
  sound := second.sound

theorem ReadsOn.keepsOn (h : cursor.ReadsOn moved) (hs : cursor.Sound) : cursor.KeepsOn moved :=
  ⟨h.buffer, h.offset_le, h.sound hs⟩

/-- The cursor with one more window. -/
def opened (cursor : Cursor) (width : Nat) : Cursor :=
  { cursor with windows := (cursor.offset + width) :: cursor.windows }

theorem remaining_opened (cursor : Cursor) (width : Nat)
    : (cursor.opened width).remaining = width := by
  simp [opened, remaining, limit]

theorem Sound.keepsOn_opened (h : cursor.Sound) {width : Nat} (hfits : width ≤ cursor.remaining)
    : cursor.KeepsOn (cursor.opened width) := by
  have hoffset := h.offset_le
  have hstop : cursor.offset + width ≤ cursor.limit := by
    rw [remaining] at hfits
    omega
  refine ⟨rfl, Nat.le_refl _, ?_, ?_, Nat.le_add_right _ _⟩
  · apply List.pairwise_cons.mpr
    refine ⟨?_, h.ordered⟩
    intro stop hm
    exact Nat.le_trans hstop (h.limit_le_of_mem hm)
  · intro stop hm
    rcases List.mem_cons.mp hm with rfl | houter
    · exact Nat.le_trans hstop h.bounded.limit_le
    · exact h.inBuffer stop houter

/-- A window is opened exactly if it is not wider than what may still be read. -/
theorem Sound.openWindow_eq (h : cursor.Sound) (width : Nat)
    : openWindow width cursor
      = if width ≤ cursor.remaining then .ok () (cursor.opened width)
        else
          let left := cursor.buffer.size - cursor.offset
          let cause : WindowError :=
            if left < width then .openPastBuffer left width
            else .openPastWindow cursor.remaining width
          .error (.window cause) cursor := by
  have hoffset := h.offset_le
  have hlimit := h.bounded.limit_le
  have hleft : cursor.buffer.size - cursor.offset < width
      ↔ cursor.buffer.size < cursor.offset + width := by omega
  have hfits : width ≤ cursor.limit - cursor.offset ↔ ¬ cursor.limit < cursor.offset + width := by
    omega
  simp only [openWindow, opened, remaining, hleft, hfits]
  by_cases hbuffer : cursor.buffer.size < cursor.offset + width
  · have hwindow : cursor.limit < cursor.offset + width := Nat.lt_of_le_of_lt hlimit hbuffer
    rw [if_pos hbuffer, if_neg (not_not_intro hwindow), if_pos hbuffer]
  · rw [if_neg hbuffer, if_neg hbuffer, ite_not]

theorem Sound.keepsOn_closed (h : cursor.Sound) {stop : Nat} {outer : List Nat}
    (hw : cursor.windows = stop :: outer)
    : cursor.KeepsOn { cursor with windows := outer } := by
  have ordered := h.ordered
  rw [hw] at ordered
  have hstop : cursor.limit = stop := by rw [limit, hw, List.headD_cons]
  refine ⟨rfl, Nat.le_refl _, (List.pairwise_cons.mp ordered).2, ?_, ?_⟩
  · intro last hm
    exact h.inBuffer last (hw ▸ List.mem_cons_of_mem stop hm)
  · have hoffset := h.offset_le
    cases outer with
    | nil => exact Nat.le_trans hoffset h.bounded.limit_le
    | cons next outer =>
        have hnext := (List.pairwise_cons.mp ordered).1 next List.mem_cons_self
        exact Nat.le_trans (hstop ▸ hoffset) hnext

/-- A window is closed without complaint exactly if it is read to its end. -/
theorem Sound.closeWindow_eq (h : cursor.Sound)
    : closeWindow cursor
      = match cursor.windows with
        | [] => .error (.window .closeWithoutWindow) cursor
        | _ :: outer =>
            if cursor.remaining = 0 then .ok () { cursor with windows := outer }
            else
              .error (.window (.closeWithRest cursor.remaining))
                { cursor with windows := outer } := by
  cases hw : cursor.windows with
  | nil => simp only [closeWindow, hw]
  | cons stop outer =>
      have hstop : cursor.limit = stop := by rw [limit, hw, List.headD_cons]
      have hoffset := h.offset_le
      rw [hstop] at hoffset
      simp only [closeWindow, hw, remaining, hstop]
      by_cases hrest : cursor.offset < stop
      · rw [if_pos hrest, if_neg (by omega)]
      · rw [if_neg hrest, if_neg (by omega), if_pos (by omega)]

-----------------------------------------------------------------------------------------
-- Runs
-----------------------------------------------------------------------------------------

/-- A refusal for another reason than that the offset is behind the end of an open window. -/
def InPlace (cause : CursorError) : Prop :=
  ∀ excess, cause ≠ .window (.offsetPastLimit excess)

theorem OfReading.inPlace {cause : CursorError} (h : OfReading cause) : InPlace cause := by
  rintro excess rfl
  exact h

theorem Forward.keepsOn {least : Nat} {read : Read Answer} (h : Forward least read)
    (hs : cursor.Sound)
    : Arrives cursor.KeepsOn (fun cause moved => InPlace cause ∧ cursor.KeepsOn moved)
        (read cursor) := by
  apply (h cursor hs).mono
  · rintro moved ⟨readsOn, _⟩
    exact readsOn.keepsOn hs
  · rintro cause moved ⟨ofReading, readsOn⟩
    exact ⟨ofReading.inPlace, readsOn.keepsOn hs⟩

/-- Every call keeps the windows in order and the offset within them, by the kind of call. -/
theorem Sound.keepsOn_make (h : cursor.Sound) (call : Call)
    : Arrives cursor.KeepsOn (fun cause moved => InPlace cause ∧ cursor.KeepsOn moved)
        (call.make cursor) := by
  cases call with
  | takeByte => exact (forward_takeByte.map _).keepsOn h
  | take count => exact ((forward_take count).map _).keepsOn h
  | takeVarint => exact (forward_takeVarint.map _).keepsOn h
  | takeFixed32 => exact (forward_takeFixed32.map _).keepsOn h
  | takeFixed64 => exact (forward_takeFixed64.map _).keepsOn h
  | takeDelimited => exact (forward_takeDelimited.map _).keepsOn h
  | openWindow width =>
      simp only [Call.make, Bind.bind, EStateM.bind, h.openWindow_eq width]
      by_cases hfits : width ≤ cursor.remaining
      · rw [if_pos hfits]
        exact .ok (h.keepsOn_opened hfits)
      · rw [if_neg hfits]
        refine .error ⟨?_, h.keepsOn_self⟩
        intro excess
        split <;> simp
  | closeWindow =>
      simp only [Call.make, Bind.bind, EStateM.bind, h.closeWindow_eq]
      cases hw : cursor.windows with
      | nil => exact .error ⟨(fun _ he => by cases he), h.keepsOn_self⟩
      | cons stop outer =>
          by_cases hread : cursor.remaining = 0
          · simp only [if_pos hread]
            exact .ok (h.keepsOn_closed hw)
          · simp only [if_neg hread]
            exact .error ⟨(fun _ he => by cases he), h.keepsOn_closed hw⟩
  | lookback start => exact .ok h.keepsOn_self

theorem Sound.keepsOn_leftBy (h : cursor.Sound) (call : Call)
    : cursor.KeepsOn (leftBy call.make cursor) := by
  have arrives := h.keepsOn_make call
  rw [leftBy]
  generalize call.make cursor = result at arrives
  cases arrives with
  | ok keepsOn => exact keepsOn
  | error h => exact h.2

/-- Any number of calls do, by induction on the calls. -/
theorem Sound.keepsOn_afterCalls (h : cursor.Sound) (calls : List Call)
    : cursor.KeepsOn (afterCalls calls cursor) := by
  induction calls generalizing cursor with
  | nil => exact h.keepsOn_self
  | cons call calls ih =>
      have first := h.keepsOn_leftBy call
      exact first.trans (ih first.sound)

/-- What each call does where the windows are in order. Bytes are taken, and windows opened,
exactly up to what may still be read; and a refusal changes nothing, except that a window is gone
once it was closed.
-/
structure Exact (cursor : Cursor) : Prop where
  remaining : cursor.offset + cursor.remaining = cursor.limit ∧ cursor.limit ≤ cursor.buffer.size
  takeByte
    : Cursor.takeByte cursor
      = match cursor.buffer.toList.drop cursor.offset with
        | byte :: _ =>
            if 1 ≤ cursor.remaining then .ok byte { cursor with offset := cursor.offset + 1 }
            else .error (.window (.readPastLimit cursor.offset 1 cursor.limit)) cursor
        | [] => .error (.window (.readPastLimit cursor.offset 1 cursor.limit)) cursor
  take (count : Nat)
    : Cursor.take count cursor
      = if count ≤ cursor.remaining then
          .ok ((cursor.buffer.toList.drop cursor.offset).take count)
            { cursor with offset := cursor.offset + count }
        else .error (.window (.readPastLimit cursor.offset count cursor.limit)) cursor
  takeFixed32
    : Cursor.takeFixed32 cursor
      = if 4 ≤ cursor.remaining then
          .ok (UInt32.ofNat (Word.decode ((cursor.buffer.toList.drop cursor.offset).take 4)))
            { cursor with offset := cursor.offset + 4 }
        else .error (.window (.readPastLimit cursor.offset 4 cursor.limit)) cursor
  takeFixed64
    : Cursor.takeFixed64 cursor
      = if 8 ≤ cursor.remaining then
          .ok (UInt64.ofNat (Word.decode ((cursor.buffer.toList.drop cursor.offset).take 8)))
            { cursor with offset := cursor.offset + 8 }
        else .error (.window (.readPastLimit cursor.offset 8 cursor.limit)) cursor
  inRange (count : Nat) (h : count ≤ cursor.remaining)
    : ((cursor.buffer.toList.drop cursor.offset).take count).length = count
  openWindow (width : Nat)
    : Cursor.openWindow width cursor
      = if width ≤ cursor.remaining then .ok () (cursor.opened width)
        else
          let left := cursor.buffer.size - cursor.offset
          let cause : WindowError :=
            if left < width then .openPastBuffer left width
            else .openPastWindow cursor.remaining width
          .error (.window cause) cursor
  opened (width : Nat) : (cursor.opened width).remaining = width
  closeWindow
    : Cursor.closeWindow cursor
      = match cursor.windows with
        | [] => .error (.window .closeWithoutWindow) cursor
        | _ :: outer =>
            if cursor.remaining = 0 then .ok () { cursor with windows := outer }
            else
              .error (.window (.closeWithRest cursor.remaining))
                { cursor with windows := outer }
  lookback (start : Nat)
    : cursor.lookback start
        = (cursor.buffer.toList.drop start).take (cursor.offset - start)
      ∧ (cursor.lookback start).length = cursor.offset - start
  inPlace (call : Call) (cause : CursorError) (moved : Cursor)
    (h : call.make cursor = .error cause moved)
    : InPlace cause

theorem Sound.take_eq (h : cursor.Sound) (count : Nat)
    : take count cursor
      = if count ≤ cursor.remaining then
          .ok ((cursor.buffer.toList.drop cursor.offset).take count)
            { cursor with offset := cursor.offset + count }
        else .error (.window (.readPastLimit cursor.offset count cursor.limit)) cursor := by
  have hoffset := h.offset_le
  rcases Nat.lt_or_ge cursor.limit (cursor.offset + count) with hlt | hle
  · rw [take_of_lt hlt, if_neg (by rw [remaining]; omega)]
  · rw [take_of_le hle, if_pos (by rw [remaining]; omega), slice_eq, Nat.add_sub_cancel_left]

theorem Sound.map_take_eq {α : Type} (h : cursor.Sound) (count : Nat) (answer : Bytes → α)
    : (do return answer (← take count) : Read α) cursor
      = if count ≤ cursor.remaining then
          .ok (answer ((cursor.buffer.toList.drop cursor.offset).take count))
            { cursor with offset := cursor.offset + count }
        else .error (.window (.readPastLimit cursor.offset count cursor.limit)) cursor := by
  simp only [Bind.bind, EStateM.bind, h.take_eq]
  by_cases hfits : count ≤ cursor.remaining
  · rw [if_pos hfits, if_pos hfits]
    rfl
  · rw [if_neg hfits, if_neg hfits]

theorem Sound.takeByte_eq (h : cursor.Sound)
    : takeByte cursor
      = match cursor.buffer.toList.drop cursor.offset with
        | byte :: _ =>
            if 1 ≤ cursor.remaining then .ok byte { cursor with offset := cursor.offset + 1 }
            else .error (.window (.readPastLimit cursor.offset 1 cursor.limit)) cursor
        | [] => .error (.window (.readPastLimit cursor.offset 1 cursor.limit)) cursor := by
  rcases Nat.lt_or_ge cursor.offset cursor.limit with hlt | hle
  · obtain ⟨byte, hbyte, htake⟩ := h.takeByte_of_lt hlt
    have hdrop : cursor.buffer.toList.drop cursor.offset
        = byte :: cursor.buffer.toList.drop (cursor.offset + 1) := by
      rw [← Array.getElem?_toList] at hbyte
      obtain ⟨hsize, rfl⟩ := List.getElem?_eq_some_iff.mp hbyte
      exact List.drop_eq_getElem_cons hsize
    have hleft : 1 ≤ cursor.remaining := by
      rw [remaining]
      omega
    rw [htake, hdrop]
    exact (if_pos hleft).symm
  · have hleft : ¬ 1 ≤ cursor.remaining := by
      rw [remaining]
      omega
    rw [takeByte_of_le hle]
    split
    · exact (if_neg hleft).symm
    · rfl

theorem Sound.length_lookback (h : cursor.Sound) (start : Nat)
    : (cursor.lookback start).length = cursor.offset - start := by
  have hoffset := h.offset_le
  have hlimit := h.bounded.limit_le
  rw [lookback, slice_eq, List.length_take, List.length_drop, Array.length_toList]
  omega

/-- What calls do follows from the order of the windows. -/
theorem Sound.exact (h : cursor.Sound) : cursor.Exact where
  remaining := ⟨Nat.add_sub_cancel' h.offset_le, h.bounded.limit_le⟩
  takeByte := h.takeByte_eq
  take := h.take_eq
  takeFixed32 := h.map_take_eq 4 _
  takeFixed64 := h.map_take_eq 8 _
  inRange count hcount := by
    have hoffset := h.offset_le
    have hlimit := h.bounded.limit_le
    rw [remaining] at hcount
    rw [List.length_take, List.length_drop, Array.length_toList]
    omega
  openWindow := h.openWindow_eq
  opened := remaining_opened cursor
  closeWindow := h.closeWindow_eq
  lookback start := ⟨slice_eq cursor start cursor.offset, h.length_lookback start⟩
  inPlace call cause moved hmake := by
    have arrives := h.keepsOn_make call
    rw [hmake] at arrives
    cases arrives with
    | error h => exact h.1

/-- Whatever is called on a cursor, and whether it fails or not, the windows stay one in the other
and within the buffer, and the offset stays in the innermost and never goes back. In each state that
is reached every call does exactly what it should.
-/
theorem calls_orderly (bytes : Bytes) (calls more : List Call)
    : (afterCalls calls (ofBytes bytes)).buffer = bytes.toArray
      ∧ (afterCalls calls (ofBytes bytes)).Sound
      ∧ (afterCalls calls (ofBytes bytes)).Exact
      ∧ (afterCalls calls (ofBytes bytes)).offset
        ≤ (afterCalls (calls ++ more) (ofBytes bytes)).offset := by
  have reached := (ofBytes_sound bytes).keepsOn_afterCalls calls
  have further := reached.sound.keepsOn_afterCalls more
  have joined : afterCalls (calls ++ more) (ofBytes bytes)
      = afterCalls more (afterCalls calls (ofBytes bytes)) :=
    List.foldl_append
  exact ⟨reached.buffer, reached.sound, reached.sound.exact, joined ▸ further.offset_le⟩

end Cursor

end TagWire
