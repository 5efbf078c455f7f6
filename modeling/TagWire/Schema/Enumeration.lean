import TagWire.Schema.Error

/-!
An enumeration gives names to numbers, one to one. Its first value is the default of the fields
that hold it.
-/

namespace TagWire

/-- An enumeration type: its values by name and number, in declaration order. -/
structure Enumeration where
  name : String
  values : List (String × Int32)
  deriving DecidableEq, Repr, Inhabited

namespace Enumeration

/-- The fault of a value beside those declared before it; a name is compared before a number. -/
def clash? (before : List (String × Int32)) (name : String) (number : Int32)
    : Option EnumFault :=
  if before.any (fun value => value.1 == name) then some (.repeatedName name)
  else
    (before.find? (fun value => value.2 == number)).map
      (fun value => .sharedNumber number value.1 name)

/-- The first fault of a list of values, each compared with those before it. -/
def firstClash? (before : List (String × Int32)) : List (String × Int32) → Option EnumFault
  | [] => none
  | (name, number) :: rest =>
      match clash? before name number with
      | some fault => some fault
      | none => firstClash? (before ++ [(name, number)]) rest

/-- Declare an enumeration. It needs a value, and no two values may share a name or a number. -/
def describe (name : String) (values : List (String × Int32))
    : Except SchemaError Enumeration :=
  match firstClash? [] values with
  | some fault => .error (.invalidEnum name fault)
  | none => if values.isEmpty then .error (.invalidEnum name .noValues) else .ok ⟨name, values⟩

/-- The number of the first value. -/
def defaultNumber (type : Enumeration) : Int32 := (type.values.head?.map Prod.snd).getD 0

/-- Whether a number is declared. -/
def contains (type : Enumeration) (number : Int32) : Bool :=
  type.values.any (fun value => value.2 == number)

/-- The name of a declared number. -/
def nameOf? (type : Enumeration) (number : Int32) : Option String :=
  (type.values.find? (fun value => value.2 == number)).map Prod.fst

/-- The number of a declared name. -/
def numberOf? (type : Enumeration) (name : String) : Option Int32 :=
  (type.values.find? (fun value => value.1 == name)).map Prod.snd

end Enumeration

end TagWire
