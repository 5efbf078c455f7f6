import TagWire.Schema.Error
import TagWire.Schema.Field

/-!
A message type is a name and a list of fields with distinct names and tags. The order of
declaration is kept for listings; the wire form goes by tags alone.
-/

namespace TagWire

/-- A message type and its fields, in declaration order. -/
structure MessageType where
  name : String
  fields : List Field
  deriving DecidableEq, Repr

namespace MessageType

/-- The fault of a field's tag and name beside those declared before it. -/
def placeFault? (message : String) (before : List Field) (field : Field) : Option SchemaError :=
  if field.tag = 0 then some (.zeroTag message field.name field.tag)
  else if maxTag < field.tag then some (.tagTooLarge message field.name field.tag)
  else if isReservedTag field.tag then some (.reservedTag message field.name field.tag)
  else
    match before.find? (fun other => other.tag == field.tag) with
    | some other => some (.duplicateTag message field.tag other.name field.name)
    | none =>
        if before.any (fun other => other.name == field.name) then
          some (.duplicateField message field.name)
        else none

/-- The fault of a field's default. -/
def defaultFault? (message : String) (field : Field) : Option SchemaError :=
  match field.default? with
  | none => none
  | some default =>
      if field.isRepeated then some (.illegalDefault message field.name .repeated)
      else if field.kind.isMessage then some (.illegalDefault message field.name .message)
      else if default.isOfKind field.kind then none
      else some (.defaultMismatch message field.name field.kind (.kind default.kindName))

/-- The fault of a field's packing. -/
def packedFault? (message : String) (field : Field) : Option SchemaError :=
  if !field.packed then none
  else if !field.isRepeated then some (.illegalPacked message field.name .singular)
  else if !field.kind.isPackable then some (.illegalPacked message field.name .delimited)
  else none

/-- The first fault of a field beside those declared before it. -/
def fieldFault? (message : String) (before : List Field) (field : Field) : Option SchemaError :=
  (placeFault? message before field).or
    ((defaultFault? message field).or (packedFault? message field))

/-- The first fault of a list of fields, each compared with those before it. -/
def firstFault? (message : String) (before : List Field) : List Field → Option SchemaError
  | [] => none
  | field :: rest =>
      match fieldFault? message before field with
      | some fault => some fault
      | none => firstFault? message (before ++ [field]) rest

/-- Declare a message type. Whether the types that it refers to exist is for the schema to say. -/
def describe (name : String) (fields : List Field) : Except SchemaError MessageType :=
  match firstFault? name [] fields with
  | some fault => .error fault
  | none => .ok ⟨name, fields⟩

/-- The field with a tag. -/
def field? (type : MessageType) (tag : Nat) : Option Field :=
  type.fields.find? (fun field => field.tag == tag)

/-- The field with a name. -/
def fieldNamed? (type : MessageType) (name : String) : Option Field :=
  type.fields.find? (fun field => field.name == name)

/-- The declared tags, ascending. -/
def tags (type : MessageType) : List Nat :=
  (type.fields.map Field.tag).mergeSort (fun a b => decide (a ≤ b))

end MessageType

end TagWire
