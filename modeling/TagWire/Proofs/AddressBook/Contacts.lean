import TagWire.Proofs.AddressBook.Interviews
import TagWire.Proofs.AddressBook.Lines
import TagWire.Proofs.Text.Numbers

/-!
The person that an input spells, line by line. An interview gives the record of that person, with
every required field set, and gives none if the input spells no one.
-/

namespace TagWire.AddressBook

/-- A telephone as it is told: its number, and its sort if that is understood. -/
structure Telephone where
  number : String
  sort? : Option Int32
  deriving DecidableEq, Repr

/-- A person as told in an interview. -/
structure Contact where
  id : Int32
  name : String
  email? : Option String
  phones : List Telephone
  deriving DecidableEq, Repr

/-- The record of a telephone. -/
def Telephone.record (telephone : Telephone) : Record where
  schema := schema
  type := phone
  slots :=
    (1, .single (.scalar (.string telephone.number)))
      :: telephone.sort?.toList.map (fun sort => (2, .single (.scalar (.enum sort))))
  unknown := []

/-- The slots of what is told of a person before the telephones. -/
def Contact.slots (contact : Contact) : List (Nat × Slot) :=
  (1, .single (.scalar (.string contact.name)))
    :: (2, .single (.scalar (.int32 contact.id)))
    :: contact.email?.toList.map (fun email => (3, .single (.scalar (.string email))))

/-- The slot of a person's telephones; a person without any has none. -/
def phoneSlots : List Telephone → List (Nat × Slot)
  | [] => []
  | phones => [(4, .repeated (phones.map (fun telephone => .message telephone.record)))]

/-- The record of a person. -/
def Contact.record (contact : Contact) : Record where
  schema := schema
  type := person
  slots := contact.slots ++ phoneSlots contact.phones
  unknown := []

/-- A person with more telephones. -/
def Contact.adding (contact : Contact) (phones : List Telephone) : Contact :=
  { contact with phones := contact.phones ++ phones }

theorem Contact.adding_nil (contact : Contact) : contact.adding [] = contact := by
  rw [adding, List.append_nil]

theorem Contact.adding_adding (contact : Contact) (phones more : List Telephone)
    : (contact.adding phones).adding more = contact.adding (phones ++ more) := by
  rw [adding, adding, adding, List.append_assoc]

/-- What a word says of the sort of a telephone; most words say nothing. -/
inductive SortWord : String → Option Int32 → Prop
  | mobile : SortWord "mobile" (some 0)
  | home : SortWord "home" (some 1)
  | work : SortWord "work" (some 2)
  | other {word : String} (unknown : word ∉ ["mobile", "home", "work"]) : SortWord word none

/-- What a text says of an e-mail address; the empty one says that there is none. -/
inductive EmailText : String → Option String → Prop
  | blank : EmailText "" none
  | address {text : String} (told : text ≠ "") : EmailText text (some text)

/-- An input spells telephones: each is a line with its number and a line with a word for its sort,
and an empty line ends them.
-/
inductive SpellPhones : Bytes → List Telephone → Prop
  | blank {input rest : Bytes} (read : TypedLine input "" rest) : SpellPhones input []
  | phone {input middle rest : Bytes} {number word : String} {sort? : Option Int32}
    {phones : List Telephone} (read : TypedLine input number middle) (told : number ≠ "")
    (readSort : TypedLine middle word rest) (sort : SortWord word sort?)
    (more : SpellPhones rest phones)
    : SpellPhones input (⟨number, sort?⟩ :: phones)

/-- An input spells a person: a line with a number, which may have white space around it, a line
with a name, a line with an e-mail address or an empty one, and telephones.
-/
inductive Contact.SpelledBy (contact : Contact) : Bytes → Prop
  | told {input afterId afterName rest : Bytes} {idText emailText : String}
    (readId : TypedLine input idText afterId) (id : SpellsNumber idText contact.id.toInt)
    (readName : TypedLine afterId contact.name afterName)
    (readEmail : TypedLine afterName emailText rest)
    (email : EmailText emailText contact.email?) (phones : SpellPhones rest contact.phones)
    : contact.SpelledBy input

-----------------------------------------------------------------------------------------
-- Answers
-----------------------------------------------------------------------------------------

/-- A word is understood as what it says. -/
theorem sortWord_iff {word : String} {sort? : Option Int32}
    : SortWord word sort? ↔ Interview.phoneSort? word = sort? := by
  constructor
  · intro sort
    cases sort with
    | other unknown =>
        obtain ⟨mobile, home, work⟩ : word ≠ "mobile" ∧ word ≠ "home" ∧ word ≠ "work" := by
          simpa using unknown
        unfold Interview.phoneSort?
        split <;> first | contradiction | rfl
    | mobile | home | work => rfl
  · rintro rfl
    unfold Interview.phoneSort?
    split
    · exact .mobile
    · exact .home
    · exact .work
    · next mobile home work => exact .other (by simpa using ⟨mobile, home, work⟩)

theorem phoneRecord_eq (number : String) {word : String} {sort? : Option Int32}
    (sort : SortWord word sort?)
    : Interview.phoneRecord number sort? = .ok (Telephone.record ⟨number, sort?⟩) := by
  cases sort <;> rfl

/-- A person with one more telephone. -/
theorem Contact.append_phone (contact : Contact) (telephone : Telephone)
    : contact.record.append 4 (.message telephone.record)
      = .ok (contact.adding [telephone]).record := by
  obtain ⟨id, name, email?, phones⟩ := contact
  cases phones with
  | nil => cases email? <;> rfl
  | cons first rest =>
      let toMessage (telephone : Telephone) : Value := .message telephone.record
      let grown (values : List Value) : Record :=
        ⟨schema, person, Contact.slots ⟨id, name, email?, []⟩ ++ [(4, .repeated values)], []⟩
      have appended : (Contact.record ⟨id, name, email?, first :: rest⟩).append 4
          (.message telephone.record)
          = .ok (grown ((first :: rest).map toMessage ++ [toMessage telephone])) := by
        cases email? <;> rfl
      have mapped : (first :: rest).map toMessage ++ [toMessage telephone]
          = (first :: rest ++ [telephone]).map toMessage := by
        simp
      rw [appended, mapped]
      rfl

namespace Interview

variable {input rest : Bytes} {text : String} {record : Record}

/-- An interview goes on after a line that is understood. -/
theorem Ends.after {interview next : Interview} {remark : String}
    {outcome : Except InterviewError Record} (going : interview.stage ≠ .done)
    (line : TypedLine input text rest) (answer : interview.answer text = .ok (next, remark))
    (h : next.Ends rest outcome)
    : interview.Ends input outcome := by
  obtain ⟨read, rfl⟩ := typedLine_iff.mp line
  exact .answered going read answer h

/-- An interview that ends with a person has understood a line, unless it was done. -/
theorem Ends.taken {interview : Interview} (h : interview.Ends input (.ok record))
    (going : interview.stage ≠ .done)
    : ∃ text rest next remark,
        TypedLine input text rest
        ∧ interview.answer text = .ok (next, remark)
        ∧ next.Ends rest (.ok record) := by
  cases h with
  | done done => exact absurd done going
  | answered _ read answer ends => exact ⟨_, _, _, _, typedLine_next read, answer, ends⟩

theorem answer_unique {interview next other : Interview} {remark told : String}
    (h : interview.answer text = .ok (next, remark))
    (ho : interview.answer text = .ok (other, told))
    : next = other :=
  (Prod.mk.inj (Except.ok.inj (h.symm.trans ho))).1

/-- The interview about a person of whom only the number is known. -/
def numbered (id : Int32) : Interview :=
  ⟨⟨schema, AddressBook.person, [(2, .single (.scalar (.int32 id)))], []⟩, .name⟩

theorem answer_start {id : Int32} (spells : SpellsNumber text id.toInt)
    : start.answer text = .ok (numbered id, "") := by
  simp only [answer, start, int32?_trimBlank.mpr spells]
  rfl

/-- A number is asked for first, and nothing else will do. -/
theorem of_answer_start {next : Interview} {remark : String}
    (h : start.answer text = .ok (next, remark))
    : ∃ id : Int32, SpellsNumber text id.toInt ∧ next = numbered id := by
  cases hid : int32? (trimBlank text.toList) with
  | none => simp [answer, start, hid] at h
  | some id =>
      have spells := int32?_trimBlank.mp hid
      exact ⟨id, spells, answer_unique h (answer_start spells)⟩

theorem answer_name (id : Int32) (text : String)
    : (numbered id).answer text = .ok (⟨Contact.record ⟨id, text, none, []⟩, .email⟩, "") :=
  rfl

theorem answer_email (id : Int32) (name : String) {email? : Option String}
    (email : EmailText text email?)
    : answer ⟨Contact.record ⟨id, name, none, []⟩, .email⟩ text
      = .ok (⟨Contact.record ⟨id, name, email?, []⟩, .phone⟩, "") := by
  cases email with
  | blank => rfl
  | address told =>
      have solid : ¬ text.isEmpty = true := by simpa using told
      simp only [answer, if_neg solid]
      rfl

theorem exists_email (text : String) : ∃ email?, EmailText text email? := by
  by_cases blank : text = ""
  · exact ⟨none, blank ▸ .blank⟩
  · exact ⟨some text, .address blank⟩

theorem answer_phone (person : Record) (text : String)
    : answer ⟨person, .phone⟩ text
      = .ok (⟨person, if text.isEmpty then .done else .phoneSort text⟩, "") := by
  by_cases blank : text.isEmpty = true <;> simp [answer, blank]

theorem answer_phoneSort (contact : Contact) (number : String) {word : String}
    {sort? : Option Int32} (sort : SortWord word sort?)
    : ∃ remark,
        answer ⟨contact.record, .phoneSort number⟩ word
          = .ok (⟨(contact.adding [⟨number, sort?⟩]).record, .phone⟩, remark) := by
  refine ⟨if sort?.isSome then "" else "Unknown phone type.  Using default.\n", ?_⟩
  simp [answer, sortWord_iff.mp sort, phoneRecord_eq number sort, Contact.append_phone, bind,
    Except.bind]

-----------------------------------------------------------------------------------------
-- Whole interviews
-----------------------------------------------------------------------------------------

/-- A person is given all telephones that an input spells, by induction on them. -/
theorem ends_of_spellPhones {phones : List Telephone} (h : SpellPhones input phones)
    (contact : Contact)
    : Ends ⟨contact.record, .phone⟩ input (.ok (contact.adding phones).record) := by
  induction h generalizing contact with
  | blank read =>
      rw [Contact.adding_nil]
      exact .after (by simp) read (answer_phone _ "") (.done rfl)
  | @phone _ _ _ number word sort? phones read told readSort sort _ ih =>
      obtain ⟨remark, sorted⟩ := answer_phoneSort contact number sort
      have numbered := answer_phone contact.record number
      rw [if_neg (by simpa using told)] at numbered
      have more := ih (contact.adding [⟨number, sort?⟩])
      rw [Contact.adding_adding] at more
      exact .after (by simp) read numbered (.after (by simp) readSort sorted more)

/-- A person who is asked for telephones is given those that an input spells, by induction on what
is left of it.
-/
theorem spellPhones_of_ends {contact : Contact}
    (h : Ends ⟨contact.record, .phone⟩ input (.ok record))
    : ∃ phones, SpellPhones input phones ∧ record = (contact.adding phones).record := by
  induction hn : input.length using Nat.strongRecOn generalizing input contact with
  | _ length ih =>
      obtain ⟨number, middle, next, remark, read, numbered, h⟩ := h.taken (by simp)
      obtain rfl := answer_unique numbered (answer_phone contact.record number)
      by_cases blank : number.isEmpty = true
      · rw [if_pos blank] at h
        obtain rfl : number = "" := by simpa using blank
        cases h with
        | done _ => exact ⟨[], .blank read, by rw [Contact.adding_nil]⟩
        | answered going => exact absurd rfl going
      · rw [if_neg blank] at h
        have told : number ≠ "" := by simpa using blank
        obtain ⟨word, rest, next, remark, readSort, sorted, h⟩ := h.taken (by simp)
        have sort := sortWord_iff.mpr (rfl : phoneSort? word = phoneSort? word)
        obtain ⟨_, taken⟩ := answer_phoneSort contact number sort
        obtain rfl := answer_unique sorted taken
        have nonempty : input ≠ [] := by
          rintro rfl
          exact told read.text_eq_empty
        have shorter : rest.length < length :=
          hn ▸ Nat.lt_of_le_of_lt readSort.length_le (read.length_lt nonempty)
        obtain ⟨phones, spelled, rfl⟩ := ih _ shorter h rfl
        exact ⟨⟨number, phoneSort? word⟩ :: phones, .phone read told readSort sort spelled,
          by rw [Contact.adding_adding]; rfl⟩

/-- An interview ends with a person exactly if the input spells one, and gives their record. -/
theorem ends_start_iff
    : start.Ends input (.ok record)
      ↔ ∃ contact : Contact, contact.SpelledBy input ∧ record = contact.record := by
  constructor
  · intro h
    obtain ⟨idText, afterId, next, remark, readId, answered, h⟩ := h.taken (by simp [start])
    obtain ⟨id, spells, rfl⟩ := of_answer_start answered
    obtain ⟨name, afterName, next, remark, readName, answered, h⟩ := h.taken (by simp [numbered])
    obtain rfl := answer_unique answered (answer_name id name)
    obtain ⟨text, rest, next, remark, readEmail, answered, h⟩ := h.taken (by simp)
    obtain ⟨email?, email⟩ := exists_email text
    obtain rfl := answer_unique answered (answer_email id name email)
    obtain ⟨phones, spelled, rfl⟩ := spellPhones_of_ends h
    exact ⟨⟨id, name, email?, phones⟩, .told readId spells readName readEmail email spelled, rfl⟩
  · rintro ⟨⟨id, name, email?, phones⟩, ⟨readId, spells, readName, readEmail, email, spelled⟩, rfl⟩
    have asked := ends_of_spellPhones spelled ⟨id, name, email?, []⟩
    exact .after (by simp [start]) readId (answer_start spells)
      (.after (by simp [numbered]) readName (answer_name id name)
        (.after (by simp) readEmail (answer_email id name email) asked))

end Interview

-----------------------------------------------------------------------------------------
-- Records of persons
-----------------------------------------------------------------------------------------

/-- There are no records in a telephone's. -/
theorem Telephone.not_holds (telephone : Telephone) (nested : Record)
    : ¬ telephone.record.Holds nested := by
  obtain ⟨number, sort?⟩ := telephone
  cases sort? <;> simp [Record.Holds, record, Slot.values]

namespace Contact

variable {contact : Contact} {input : Bytes}

theorem SpelledBy.conforms (h : contact.SpelledBy input) : contact.record.Conforms schema := by
  have empty : (Record.empty schema person).Conforms schema :=
    Record.empty_conforms (rfl : schema.message? person.name = some person)
  exact ((Interview.ends_start_iff.mpr ⟨contact, h, rfl⟩).keeps empty).1

/-- The records nested in a person's are those of the telephones. -/
theorem holds_iff {nested : Record}
    : contact.record.Holds nested ↔ ∃ telephone ∈ contact.phones, telephone.record = nested := by
  obtain ⟨id, name, email?, phones⟩ := contact
  cases email? <;> cases phones <;>
    simp [Record.Holds, record, slots, phoneSlots, Slot.values, eq_comm]

/-- A person's record is one level deep at most. -/
theorem depth_record_le (contact : Contact) : contact.record.depth ≤ 1 := by
  refine Record.depth_le_iff.mpr (fun nested holds => ?_)
  obtain ⟨telephone, _, rfl⟩ := holds_iff.mp holds
  refine Nat.lt_succ_of_le (Record.depth_le_iff.mpr (fun nested holds => ?_))
  exact absurd holds (telephone.not_holds nested)

/-- Nothing is missing in the record of a person who was spelled. -/
theorem SpelledBy.complete (h : contact.SpelledBy input) : contact.record.missing = [] := by
  refine (h.conforms.missing_eq_nil_iff schema_built).mpr ⟨?_, fun nested holds => ?_⟩
  · intro field (hm : field ∈ person.fields) required
    simp only [person, List.mem_cons, List.not_mem_nil, or_false] at hm
    rcases hm with rfl | rfl | rfl | rfl
    · rfl
    · rfl
    · exact absurd required (by decide)
    · exact absurd required (by decide)
  · have hc := h.conforms.inner holds
    obtain ⟨telephone, _, rfl⟩ := holds_iff.mp holds
    refine (hc.missing_eq_nil_iff schema_built).mpr ⟨?_, ?_⟩
    · intro field (hm : field ∈ phone.fields) required
      simp only [phone, List.mem_cons, List.not_mem_nil, or_false] at hm
      rcases hm with rfl | rfl
      · rfl
      · exact absurd required (by decide)
    · intro nested holds
      exact absurd holds (telephone.not_holds nested)

end Contact

end TagWire.AddressBook
