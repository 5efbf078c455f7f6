import TagWire.Schema.Kind

/-!
What can be wrong with a declaration. Each error names the type that was being declared and the
rule that it broke; the wording is in one function.
-/

namespace TagWire

/-- What stood where a value of another kind was expected. -/
inductive Found where
  /-- A value of the kind with this short name. -/
  | kind (name : String)
  /-- A record of this message type. -/
  | record (type : String)
  /-- A number that the enumeration does not declare. -/
  | undeclared (number : Int32)
  deriving DecidableEq, Repr

/-- How an error describes what it found. -/
def Found.text : Found → String
  | kind name => name
  | record type => "message " ++ type
  | undeclared number => "undeclared value " ++ toString number.toInt

/-- Why an enumeration is refused. -/
inductive EnumFault where
  | repeatedName (value : String)
  | sharedNumber (number : Int32) (first second : String)
  | noValues
  deriving DecidableEq, Repr

/-- The text of an enumeration's fault. -/
def EnumFault.text : EnumFault → String
  | repeatedName value => s!"value name `{value}` is declared more than once"
  | sharedNumber number first second =>
      "number " ++ toString number.toInt ++ s!" is shared by `{first}` and `{second}`"
  | noValues => "no values declared"

/-- Why a field cannot carry a default. -/
inductive DefaultFault where
  | repeated
  | message
  deriving DecidableEq, Repr

/-- The text of a default's fault. -/
def DefaultFault.text : DefaultFault → String
  | repeated => "repeated fields default to empty"
  | message => "message fields default to an empty record"

/-- Why a field cannot be packed. -/
inductive PackedFault where
  | singular
  | delimited
  deriving DecidableEq, Repr

/-- The text of a packed field's fault. -/
def PackedFault.text : PackedFault → String
  | singular => "only repeated fields can be packed"
  | delimited => "length-delimited kinds cannot be packed"

/-- The two sorts of type that a field can refer to. -/
inductive TypeSort where
  | enum
  | message
  deriving DecidableEq, Repr

/-- The text of a sort of type. -/
def TypeSort.text : TypeSort → String
  | enum => "enum"
  | message => "message"

/-- Why a declaration is refused. -/
inductive SchemaError where
  | zeroTag (message field : String) (tag : Nat)
  | tagTooLarge (message field : String) (tag : Nat)
  | reservedTag (message field : String) (tag : Nat)
  | duplicateTag (message : String) (tag : Nat) (first second : String)
  | duplicateField (message field : String)
  | defaultMismatch (message field : String) (expected : Kind) (actual : Found)
  | illegalDefault (message field : String) (fault : DefaultFault)
  | illegalPacked (message field : String) (fault : PackedFault)
  | invalidEnum (name : String) (fault : EnumFault)
  | duplicateType (name : String)
  | unresolved (message field : String) (sort : TypeSort) (target : String)
  deriving DecidableEq, Repr

/-- The text of a schema error. -/
def SchemaError.message : SchemaError → String
  | zeroTag message field tag => s!"`{message}`: field `{field}` has non-positive tag {tag}"
  | tagTooLarge message field tag =>
      s!"`{message}`: field `{field}` has tag {tag}, above the maximum of {maxTag}"
  | reservedTag message field tag => s!"`{message}`: field `{field}` uses reserved tag {tag}"
  | duplicateTag message tag first second =>
      s!"`{message}`: tag {tag} is claimed by both `{first}` and `{second}`"
  | duplicateField message field =>
      s!"`{message}`: field name `{field}` is declared more than once"
  | defaultMismatch message field expected actual =>
      s!"`{message}`: default for field `{field}` is {actual.text}, expected {expected.text}"
  | illegalDefault message field fault =>
      s!"`{message}`: field `{field}` cannot carry a default ({fault.text})"
  | illegalPacked message field fault =>
      s!"`{message}`: field `{field}` cannot be packed ({fault.text})"
  | invalidEnum name fault => s!"enum `{name}`: {fault.text}"
  | duplicateType name => s!"type name `{name}` is declared more than once"
  | unresolved message field sort target =>
      s!"`{message}`: field `{field}` refers to undeclared {sort.text} `{target}`"

end TagWire
