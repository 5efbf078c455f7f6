import TagWire.Schema.Basic

/-!
The schema of an address book: people with a name, a number, perhaps an e-mail address, and any
number of telephones.
-/

namespace TagWire.AddressBook

/-- The sorts of telephone. -/
def phoneType : Enumeration :=
  ⟨"tutorial.Person.PhoneType", [("MOBILE", 0), ("HOME", 1), ("WORK", 2)]⟩

/-- A telephone: its number, and its sort, which is at home unless something else is said. -/
def phone : MessageType where
  name := "tutorial.Person.PhoneNumber"
  fields :=
    [{ name := "number", tag := 1, cardinality := .required, kind := .string },
      { name := "type", tag := 2, cardinality := .optional, kind := .enum phoneType.name,
        default? := some (.scalar (.enum 1)) }]

/-- A person. -/
def person : MessageType where
  name := "tutorial.Person"
  fields :=
    [{ name := "name", tag := 1, cardinality := .required, kind := .string },
      { name := "id", tag := 2, cardinality := .required, kind := .int32 },
      { name := "email", tag := 3, cardinality := .optional, kind := .string },
      { name := "phones", tag := 4, cardinality := .repeated, kind := .message phone.name }]

/-- The people of an address book. -/
def book : MessageType where
  name := "tutorial.AddressBook"
  fields :=
    [{ name := "people", tag := 1, cardinality := .repeated, kind := .message person.name }]

/-- The types of an address book. -/
def schema : Schema := ⟨[phoneType], [phone, person, book]⟩

/-- The enumeration of telephone sorts is a legal declaration. -/
theorem describe_phoneType
    : Enumeration.describe phoneType.name phoneType.values = .ok phoneType := by
  rfl

/-- The message types are legal declarations. -/
theorem describe_messages
    : ∀ type ∈ schema.messages, MessageType.describe type.name type.fields = .ok type := by
  simp only [schema, List.forall_mem_cons, List.not_mem_nil, false_implies, implies_true, and_true]
  exact ⟨rfl, rfl, rfl⟩

/-- The types fit together. -/
theorem build_schema : Schema.build schema.enums schema.messages = .ok schema := by
  rfl

end TagWire.AddressBook
