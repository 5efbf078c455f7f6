import TagWire.Text.Hex

/-!
What a cursor can fail with. A window error concerns the bytes that may be taken, a token error
the number that they spell.
-/

namespace TagWire

/-- A read or a window that does not fit, or a window closed at the wrong place. -/
inductive WindowError where
  /-- More bytes were asked for than stand before the limit. -/
  | readPastLimit (offset requested limit : Nat)
  /-- A window would end past the buffer. -/
  | openPastBuffer (left requested : Nat)
  /-- A window would end past the window around it. -/
  | openPastWindow (left requested : Nat)
  /-- A window was closed with bytes left in it. -/
  | closeWithRest (left : Nat)
  /-- There was no window to close. -/
  | closeWithoutWindow
  /-- A window was closed after the offset had left it. -/
  | offsetPastLimit (excess : Nat)
  deriving DecidableEq, Repr

/-- A varint that cannot be read. -/
inductive TokenError where
  /-- The input ended inside the number, after these bytes. -/
  | unterminated (seen : Bytes)
  /-- The number needs more than 64 bits. -/
  | tooWide
  deriving DecidableEq, Repr

/-- Why a cursor operation failed. -/
inductive CursorError where
  | window (cause : WindowError)
  | token (cause : TokenError)
  deriving DecidableEq, Repr

/-- The text of a window error. -/
def WindowError.message : WindowError → String
  | readPastLimit offset requested limit =>
      s!"cannot consume {requested} bytes at offset {offset} (limit {limit})"
  | openPastBuffer left requested =>
      s!"cannot open {requested}-byte context window: only {left} bytes remain"
  | openPastWindow left requested =>
      s!"cannot open {requested}-byte context window: "
        ++ s!"wider than the {left} bytes left in the enclosing window"
  | closeWithRest left => s!"cannot close context window with {left} residual bytes"
  | closeWithoutWindow => "no context window to close"
  | offsetPastLimit excess => s!"BUG: offset exceeds the current limit by {excess} bytes"

/-- The text of a token error. -/
def TokenError.message : TokenError → String
  | unterminated seen =>
      "varint failed to terminate before end of input (read " ++ Hex.list seen ++ ")"
  | tooWide => "varint does not fit in 64 bits"

/-- The text of a cursor error is that of its cause. -/
def CursorError.message : CursorError → String
  | window cause => cause.message
  | token cause => cause.message

end TagWire
