import TagWire.Cursor.Error

/-!
A cursor reads a buffer from left to right. Windows narrow what it may read: each holds the
absolute offset where it ends, and only the innermost counts. A failed read leaves the cursor
where it was.
-/

namespace TagWire

/-- A place in a buffer, and the ends of the windows open there, innermost first. -/
structure Cursor where
  buffer : Array UInt8
  offset : Nat
  windows : List Nat
  deriving DecidableEq, Repr

/-- An action on a cursor. The cursor it leaves behind is there after a failure, too. -/
abbrev Read (α : Type) := EStateM CursorError Cursor α

namespace Cursor

/-- A cursor at the start of a buffer, with no window open. -/
def ofBytes (bytes : Bytes) : Cursor := ⟨bytes.toArray, 0, []⟩

/-- Where reading has to stop: the end of the innermost window, or of the buffer. -/
def limit (cursor : Cursor) : Nat := cursor.windows.headD cursor.buffer.size

/-- Bytes that may still be read. -/
def remaining (cursor : Cursor) : Nat := cursor.limit - cursor.offset

/-- The bytes between two offsets. -/
def slice (cursor : Cursor) (start stop : Nat) : Bytes :=
  (cursor.buffer.extract start stop).toList

/-- The bytes from an earlier offset up to the cursor; none if the offset is not earlier. -/
def lookback (cursor : Cursor) (start : Nat) : Bytes := cursor.slice start cursor.offset

/-- Take the next bytes, all of them or none. -/
def take (count : Nat) : Read Bytes := fun cursor =>
  let stop := cursor.offset + count
  if stop ≤ cursor.limit then
    .ok (cursor.slice cursor.offset stop) { cursor with offset := stop }
  else
    .error (.window (.readPastLimit cursor.offset count cursor.limit)) cursor

/-- Take the next byte. -/
def takeByte : Read UInt8 := fun cursor =>
  let refused := .error (.window (.readPastLimit cursor.offset 1 cursor.limit)) cursor
  if cursor.offset < cursor.limit then
    match cursor.buffer[cursor.offset]? with
    | some byte => .ok byte { cursor with offset := cursor.offset + 1 }
    | none => refused
  else refused

/-- Open a window on the next bytes. It has to fit into the buffer and into the window around
it, and the buffer is asked first. -/
def openWindow (width : Nat) : Read Unit := fun cursor =>
  let stop := cursor.offset + width
  if cursor.buffer.size < stop then
    .error (.window (.openPastBuffer (cursor.buffer.size - cursor.offset) width)) cursor
  else if cursor.limit < stop then
    .error (.window (.openPastWindow (cursor.limit - cursor.offset) width)) cursor
  else .ok () { cursor with windows := stop :: cursor.windows }

/-- Close the innermost window, which has to be read to its end. It is gone afterwards even if
it was not. -/
def closeWindow : Read Unit := fun cursor =>
  match cursor.windows with
  | [] => .error (.window .closeWithoutWindow) cursor
  | stop :: outer =>
      let closed := { cursor with windows := outer }
      if cursor.offset < stop then
        .error (.window (.closeWithRest (stop - cursor.offset))) closed
      else if stop < cursor.offset then
        .error (.window (.offsetPastLimit (cursor.offset - stop))) closed
      else .ok () closed

end Cursor

end TagWire
