import TagWire.Schema.Enumeration
import TagWire.Schema.MessageType

/-!
A schema is a closed set of enumerations and message types: every type that a field refers to is
in it. Message types may refer to themselves and to each other.
-/

namespace TagWire

/-- A set of types, looked up by name. -/
structure Schema where
  enums : List Enumeration
  messages : List MessageType
  deriving DecidableEq, Repr

namespace Schema

/-- The enumeration with a name. -/
def enum? (schema : Schema) (name : String) : Option Enumeration :=
  schema.enums.find? (fun type => type.name == name)

/-- The message type with a name. -/
def message? (schema : Schema) (name : String) : Option MessageType :=
  schema.messages.find? (fun type => type.name == name)

/-- Whether an enumeration exists and declares a number. -/
def declares (schema : Schema) (enum : String) (number : Int32) : Bool :=
  (schema.enum? enum).any (fun type => type.contains number)

/-- The default number of an enumeration, or zero for one that does not exist. -/
def defaultNumber (schema : Schema) (enum : String) : Int32 :=
  ((schema.enum? enum).map Enumeration.defaultNumber).getD 0

/-- Whether a scalar is an enumeration number that the kind's enumeration does not declare. -/
def isUndeclared (schema : Schema) : Kind → Scalar → Bool
  | .enum type, .enum number => !schema.declares type number
  | _, _ => false

/-- The first name that occurs again after it was taken. -/
def firstRepeat? (taken : List String) : List String → Option String
  | [] => none
  | name :: rest =>
      if taken.contains name then some name else firstRepeat? (taken ++ [name]) rest

/-- The fault of a field's reference to another type. -/
def referenceFault? (schema : Schema) (message : String) (field : Field) : Option SchemaError :=
  match field.kind with
  | .enum target =>
      if (schema.enum? target).isSome then none
      else some (.unresolved message field.name .enum target)
  | .message target =>
      if (schema.message? target).isSome then none
      else some (.unresolved message field.name .message target)
  | _ => none

/-- The fault of an enumeration field's default, which has to be a declared number. -/
def defaultFault? (schema : Schema) (message : String) (field : Field) : Option SchemaError :=
  match field.kind, field.default? with
  | .enum target, some (.scalar (.enum number)) =>
      if schema.declares target number then none
      else some (.defaultMismatch message field.name field.kind (.undeclared number))
  | _, _ => none

/-- The first fault among the references and defaults of the message types. -/
def firstFault? (schema : Schema) : Option SchemaError :=
  schema.messages.findSome? (fun type =>
    type.fields.findSome? (fun field =>
      (schema.referenceFault? type.name field).or (schema.defaultFault? type.name field)))

/-- Put types together into a schema. Enumerations and messages share one set of names. -/
def build (enums : List Enumeration) (messages : List MessageType)
    : Except SchemaError Schema :=
  match firstRepeat? [] (enums.map Enumeration.name ++ messages.map MessageType.name) with
  | some name => .error (.duplicateType name)
  | none =>
      match firstFault? ⟨enums, messages⟩ with
      | some fault => .error fault
      | none => .ok ⟨enums, messages⟩

end Schema

end TagWire
