import TagWire.Cursor.Error
import TagWire.Text.Quoted

/-!
Why bytes cannot be decoded. An error that has to do with a place in the input carries the offset
where the thing starts that could not be read.
-/

namespace TagWire

/-- Why bytes are not the encoding of a record. -/
inductive DecodeError where
  | malformed (offset : Nat) (cause : CursorError)
  | invalidTag (offset tag : Nat)
  | invalidWireKind (offset tag code : Nat)
  | wireMismatch (message : String) (tag : Nat) (expected actual : WireKind) (offset : Nat)
  | invalidUtf8 (message : String) (tag offset : Nat)
  | recursionLimit (limit : Nat)
  | unknownMessage (name : String)
  | missingRequired (message : String) (paths : List String)
  deriving DecidableEq, Repr

/-- The text of a decoding error. -/
def DecodeError.message : DecodeError → String
  | malformed offset cause => s!"malformed input at byte {offset}: {cause.message}"
  | invalidTag offset tag => s!"invalid tag {tag} at byte {offset}"
  | invalidWireKind offset tag code =>
      s!"unsupported wire kind {code} for tag {tag} at byte {offset}"
  | wireMismatch message tag expected actual offset =>
      s!"field {tag} of `{message}` is declared {expected.name} "
        ++ s!"but was encoded as {actual.name} (byte {offset})"
  | invalidUtf8 message tag offset =>
      s!"field {tag} of `{message}` is not valid UTF-8 (byte {offset})"
  | recursionLimit limit => s!"nested records exceed the recursion limit of {limit}"
  | unknownMessage name => s!"unknown message type `{name}`"
  | missingRequired message paths =>
      s!"decoded `{message}` is missing required fields {Quoted.set paths}"

end TagWire
