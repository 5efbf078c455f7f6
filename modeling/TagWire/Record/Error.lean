import TagWire.Schema.Error

/-!
Why a record refuses an operation. A wrong use of a field names the operation that fits it.
-/

namespace TagWire

/-- The operations on a field that an error may recommend. -/
inductive Operation where
  | set
  | append
  | get
  | getRepeated
  | messageAt
  | addMessage
  deriving DecidableEq, Repr

/-- The name of an operation in messages. -/
def Operation.name : Operation → String
  | set => "set"
  | append => "append"
  | get => "get"
  | getRepeated => "get_repeated"
  | messageAt => "message_mut"
  | addMessage => "add_message"

/-- Why an operation on a record failed. -/
inductive RecordError where
  | unknownField (message : String) (tag : Nat)
  | mismatch (message field : String) (expected : Kind) (actual : Found)
  | cardinality (message field : String) (actual : Cardinality) (advice : Operation)
  | indexOutOfRange (message field : String) (index length : Nat)
  | unknownMessage (name : String)
  | messageMismatch (expected actual : String)
  deriving DecidableEq, Repr

/-- The text of a record error. -/
def RecordError.message : RecordError → String
  | unknownField message tag => s!"`{message}` has no field with tag {tag}"
  | mismatch message field expected actual =>
      s!"`{message}`.{field}: expected {expected.text}, got {actual.text}"
  | cardinality message field actual advice =>
      s!"`{message}`.{field} is {actual.text}; use `{advice.name}` instead"
  | indexOutOfRange message field index length =>
      s!"index {index} is out of range for `{message}`.{field} with {length} elements"
  | unknownMessage name => s!"unknown message type `{name}`"
  | messageMismatch expected actual =>
      s!"cannot merge a `{actual}` record into a `{expected}` record"

end TagWire
