import TagWire.Proofs.Schemas.Building

/-!
Schemas that differ in the numbers of their enumerations. A newer schema declares what an older one
does, and perhaps more numbers.
-/

namespace TagWire

/-- A schema has the message types of another, and declares no number that the other does not. -/
structure Schema.Narrows (narrow wide : Schema) : Prop where
  messages : narrow.messages = wide.messages
  numbers
    : ∀ {enum : String} {number : Int32},
        narrow.declares enum number = true → wide.declares enum number = true

namespace Schema

variable {narrow wide : Schema}

theorem message?_of_messages (same : narrow.messages = wide.messages) (name : String)
    : narrow.message? name = wide.message? name := by
  rw [message?, message?, same]

/-- What is declared in the narrow schema is declared in the wide one. -/
theorem Narrows.isUndeclared (h : narrow.Narrows wide) {kind : Kind} {value : Scalar}
    (declared : narrow.isUndeclared kind value = false)
    : wide.isUndeclared kind value = false := by
  cases kind with
  | enum target =>
      cases value with
      | enum number =>
          have hnarrow : narrow.declares target number = true := by
            simpa [Schema.isUndeclared] using declared
          simp [Schema.isUndeclared, h.numbers hnarrow]
      | _ => rfl
  | _ => rfl

/-- What is not declared in the wide schema is not declared in the narrow one. -/
theorem Narrows.undeclared (h : narrow.Narrows wide) {kind : Kind} {value : Scalar}
    (undeclared : wide.isUndeclared kind value = true)
    : narrow.isUndeclared kind value = true := by
  cases hn : narrow.isUndeclared kind value with
  | true => rfl
  | false => rw [h.isUndeclared hn] at undeclared; exact undeclared

end Schema

namespace AddressBook

/-- The sorts of telephone before there were any at work. -/
def olderPhoneType : Enumeration := ⟨phoneType.name, [("MOBILE", 0), ("HOME", 1)]⟩

/-- Beside the same message types, the older sorts are some of the newer ones. -/
theorem narrows_phoneType (messages : List MessageType)
    : (⟨[olderPhoneType], messages⟩ : Schema).Narrows ⟨[phoneType], messages⟩ := by
  refine ⟨rfl, fun {enum number} h => ?_⟩
  have sorts : olderPhoneType.contains number = true → phoneType.contains number = true := by
    simp only [Enumeration.contains, olderPhoneType, phoneType, List.any_cons, List.any_nil,
      Bool.or_false, Bool.or_eq_true]
    rintro (h | h)
    · exact .inl h
    · exact .inr (.inl h)
  have sameName : olderPhoneType.name = phoneType.name := rfl
  simp only [Schema.declares, Schema.enum?, List.find?_cons, List.find?_nil, sameName] at h ⊢
  cases hname : phoneType.name == enum with
  | false => simp [hname] at h
  | true =>
      simp only [hname, Option.any_some] at h ⊢
      exact sorts h

/-- The schema of address books with the older sorts. -/
def older : Schema := ⟨[olderPhoneType], [phone, person, book]⟩

theorem older_built : older.Built where
  enums type hm := by
    obtain rfl := List.mem_singleton.mp hm
    rfl
  messages := describe_messages
  closed := rfl

end AddressBook

end TagWire
