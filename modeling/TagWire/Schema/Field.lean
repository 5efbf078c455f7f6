import TagWire.Schema.Scalar

/-!
A field of a message type: its name, tag, cardinality and kind, a default for while it is unset,
and whether its values are packed.
-/

namespace TagWire

/-- A declared default. Only a scalar can be one in the end; a record is there to be refused. -/
inductive Default where
  | scalar (value : Scalar)
  | record (type : String)
  deriving DecidableEq, Repr

namespace Default

/-- The short name of a default's kind. -/
def kindName : Default → String
  | scalar value => value.kindName
  | record _ => "message"

/-- Whether a default is of a kind. -/
def isOfKind : Default → Kind → Bool
  | scalar value, kind => value.isOfKind kind
  | record type, kind => kind == .message type

end Default

/-- The declaration of one field. -/
structure Field where
  name : String
  tag : Nat
  cardinality : Cardinality
  kind : Kind
  default? : Option Default := none
  packed : Bool := false
  deriving DecidableEq, Repr

namespace Field

/-- Whether a field may hold many values. -/
def isRepeated (field : Field) : Bool := field.cardinality == .repeated

/-- Whether a field has to be set. -/
def isRequired (field : Field) : Bool := field.cardinality == .required

/-- The wire kind of one value of a field. -/
def wireKind (field : Field) : WireKind := field.kind.wireKind

end Field

end TagWire
