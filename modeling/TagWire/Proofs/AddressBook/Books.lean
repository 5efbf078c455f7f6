import TagWire.AddressBook.Program
import TagWire.Proofs.AddressBook.Contacts
import TagWire.Proofs.Decoding.Depths
import TagWire.Proofs.Encoding.RoundTrip
import TagWire.Proofs.Records.FieldCalls
import TagWire.Proofs.Store.Media

/-!
What a run of the address book program does to the file that it is given. Either it puts one more
person at the end of the book that the file holds, or it fails and changes nothing.
-/

namespace TagWire.AddressBook

/-- The book that contents hold: what they are decoded to, or an empty one if there are none. -/
def storedBook? : Option Bytes → Option Record
  | none => some (.empty schema book)
  | some bytes => (Record.decode schema book.name bytes {}).toOption

/-- A book with one more person at its end, and otherwise as it was. -/
def withPerson (old : Record) (contact : Contact) : Record :=
  old.putSlot 1 (.repeated (old.elements 1 ++ [.message contact.record]))

/-- A record has one more person than another at the end of its people, and is the same otherwise.
-/
structure GainsPerson (old new : Record) (contact : Contact) : Prop where
  schema : new.schema = old.schema
  type : new.type = old.type
  people
    : ∃ before,
        FieldCall.Lists (old.slot? 1) before
        ∧ new.slot? 1 = some (.repeated (before ++ [.message contact.record]))
  others : ∀ tag, tag ≠ 1 → new.slot? tag = old.slot? tag
  unknown : new.unknown = old.unknown

/-- The field of a book's people. -/
def peopleField : Field :=
  { name := "people", tag := 1, cardinality := .repeated, kind := .message person.name }

-----------------------------------------------------------------------------------------
-- Books
-----------------------------------------------------------------------------------------

/-- A record is a book of the schema. -/
structure IsBook (record : Record) : Prop where
  conforms : record.Conforms schema
  typed : record.type = book

namespace IsBook

variable {old : Record} {contact : Contact} {input : Bytes}

theorem field? (h : IsBook old) : old.type.field? 1 = some peopleField := by
  rw [h.typed]
  rfl

/-- The people of a book are the records nested in it. -/
theorem holds_iff (h : IsBook old) {nested : Record}
    : old.Holds nested ↔ .message nested ∈ old.elements 1 := by
  constructor
  · rintro ⟨⟨tag, slot⟩, hentry, hm⟩
    have hs := h.conforms.here.ascending.find?_of_mem hentry
    obtain ⟨field, hf, hslot⟩ := h.conforms.slot hs
    have only : field ∈ book.fields := h.typed ▸ List.mem_of_find?_eq_some hf
    obtain rfl : field = peopleField := List.mem_singleton.mp only
    obtain rfl : 1 = tag := MessageType.tag_of_field? hf
    obtain ⟨values, rfl⟩ := hslot.exists_repeated rfl
    have helements : old.elements 1 = values := by
      rw [Record.elements, Record.slot?, hs]
    rwa [helements]
  · intro hm
    rw [Record.elements] at hm
    split at hm
    · next values hs => exact Record.holds_of_slot? hs hm
    · simp at hm

/-- Nothing is missing in a book exactly if nothing is in its people. -/
theorem missing_eq_nil_iff (h : IsBook old)
    : old.missing = [] ↔ ∀ person, old.Holds person → person.missing = [] := by
  rw [h.conforms.missing_eq_nil_iff schema_built, and_iff_right_iff_imp]
  intro _ field hm required
  rw [h.typed] at hm
  obtain rfl := List.mem_singleton.mp hm
  exact absurd required (by decide)

/-- A book with one more person gains that person, and is otherwise the same. -/
theorem gainsPerson (h : IsBook old) (contact : Contact)
    : GainsPerson old (withPerson old contact) contact where
  schema := rfl
  type := rfl
  people := by
    obtain ⟨before, lists⟩ := FieldCall.exists_lists h.conforms.here h.field? rfl
    refine ⟨before, lists, ?_⟩
    rw [withPerson, Record.slot?_putSlot, if_pos rfl, lists.elements]
  others tag other := by rw [withPerson, Record.slot?_putSlot, if_neg (Ne.symm other)]
  unknown := rfl

/-- Whoever is spelled can be added to a book. -/
theorem append_eq (h : IsBook old) (spelled : contact.SpelledBy input)
    : old.append 1 (.message contact.record) = .ok (withPerson old contact) := by
  have fits : (Value.message contact.record).Fits schema peopleField.kind :=
    (Value.Conforms.message spelled.conforms).fits
  exact Record.append_accepts h.conforms h.field? rfl fits

/-- A book with one more person is a book. -/
theorem withPerson (h : IsBook old) (spelled : contact.SpelledBy input)
    : IsBook (withPerson old contact) := by
  have conforms : ∀ nested, Value.message contact.record = .message nested
      → nested.Conforms schema := by
    rintro _ ⟨⟩
    exact spelled.conforms
  obtain ⟨hc, same⟩ := Record.append_keeps h.conforms conforms (h.append_eq spelled)
  exact ⟨hc, same.trans h.typed⟩

/-- A book with one more person holds that person beside those that it held. -/
theorem holds_withPerson (h : IsBook old) (spelled : contact.SpelledBy input) {nested : Record}
    : (AddressBook.withPerson old contact).Holds nested
      ↔ old.Holds nested ∨ nested = contact.record := by
  have people : (AddressBook.withPerson old contact).elements 1
      = old.elements 1 ++ [.message contact.record] := by
    simp [AddressBook.withPerson, Record.elements, Record.slot?_putSlot]
  rw [(h.withPerson spelled).holds_iff, people, List.mem_append, ← h.holds_iff,
    List.mem_singleton, Value.message.injEq]

/-- A book with one more person is complete exactly if it was. -/
theorem withPerson_complete_iff (h : IsBook old) (spelled : contact.SpelledBy input)
    : (AddressBook.withPerson old contact).isComplete = true
      ↔ ∀ person, old.Holds person → person.missing = [] := by
  rw [Record.isComplete_iff, (h.withPerson spelled).missing_eq_nil_iff]
  constructor
  · intro complete person holds
    exact complete person ((h.holds_withPerson spelled).mpr (.inl holds))
  · intro complete person holds
    obtain holds | rfl := (h.holds_withPerson spelled).mp holds
    · exact complete person holds
    · exact spelled.complete

/-- A person makes a book no deeper than two levels, if it is not anyway. -/
theorem depth_withPerson_le (h : IsBook old) (spelled : contact.SpelledBy input) {limit : Nat}
    (hdepth : old.depth ≤ limit) (two : 2 ≤ limit)
    : (AddressBook.withPerson old contact).depth ≤ limit := by
  refine Record.depth_le_iff.mpr (fun nested holds => ?_)
  obtain holds | rfl := (h.holds_withPerson spelled).mp holds
  · exact Nat.lt_of_lt_of_le (Record.depth_lt_of_holds holds) hdepth
  · exact Nat.lt_of_lt_of_le (Nat.lt_succ_of_le contact.depth_record_le) two

end IsBook

/-- What is stored is a book, and no deeper than books that are read. -/
theorem isBook_of_stored {contents? : Option Bytes} {old : Record}
    (h : storedBook? contents? = some old)
    : IsBook old ∧ old.depth ≤ 100 := by
  have found : schema.message? book.name = some book := rfl
  cases contents? with
  | none =>
      obtain rfl := Option.some.inj h
      exact ⟨⟨Record.empty_conforms found, rfl⟩, Nat.zero_le _⟩
  | some bytes =>
      cases hd : Record.decode schema book.name bytes {} with
      | error cause => simp [storedBook?, hd, Except.toOption] at h
      | ok record =>
          obtain rfl : record = old := by simpa [storedBook?, hd, Except.toOption] using h
          obtain ⟨href, hc, hname⟩ := Record.of_decode_eq_ok hd
          have typed := hc.here.typed
          rw [hname, found] at typed
          exact ⟨⟨hc, (Option.some.inj typed).symm⟩,
            Nat.le_of_lt_succ (Reference.depth_lt_of_decodeWithin? href)⟩

-----------------------------------------------------------------------------------------
-- Runs
-----------------------------------------------------------------------------------------

section Runs

variable {path : String} {directory : Directory} {input : Bytes} {after : Scene}

/-- A book is opened exactly if one is stored in what is read. -/
theorem openBook_eq_ok_iff {contents? : Option Bytes} {old : Record}
    : (∃ isNew, openBook contents? = .ok (old, isNew)) ↔ storedBook? contents? = some old := by
  cases contents? with
  | none => simp [openBook, Store.load, Source.read, storedBook?]
  | some bytes =>
      simp only [openBook, Store.load, Source.read, storedBook?]
      cases Record.decode schema book.name bytes {} <;> simp [Except.toOption]

/-- What has been heard and said by the time that the interview starts. -/
def Scene.noticing (scene : Scene) (path : String) (isNew : Bool) : Scene :=
  { scene with printed := scene.printed ++ if isNew then newFileNotice path else "" }

/-- Without a book there is no interview. -/
theorem edit_unopened (scene : Scene) {cause : ProgramError}
    (opened : openBook (scene.directory.read path) = .error cause)
    : edit (m := StateM Scene) path scene = (.error cause, scene) := by
  simp only [edit, bind, StateT.bind, Host.read, opened]
  rfl

section Opened

variable {old person new : Record} {isNew : Bool}

/-- Without a person nothing is added. -/
theorem edit_unasked (scene : Scene) {cause : InterviewError}
    (opened : openBook (scene.directory.read path) = .ok (old, isNew))
    (asked : Interview.start.ask (m := StateM Scene) (scene.noticing path isNew)
      = (.error cause, after))
    : edit (m := StateM Scene) path scene = (.error (.interview cause), after) := by
  simp only [Scene.noticing] at asked
  simp only [edit, bind, StateT.bind, Host.read, Host.say, opened, asked]
  rfl

/-- What comes of a person that has been told is what comes of saving the book. -/
theorem edit_asked (scene : Scene)
    (opened : openBook (scene.directory.read path) = .ok (old, isNew))
    (asked : Interview.start.ask (m := StateM Scene) (scene.noticing path isNew)
      = (.ok person, after))
    (added : old.append 1 (.message person) = .ok new) {outcome : Except StoreError Nat}
    {last : Scene}
    (saved : Store.saveWith (m := StateM Scene) (Host.write path) new after = (outcome, last))
    : edit (m := StateM Scene) path scene
      = ((outcome.mapError .store).map (fun _ => ()), last) := by
  simp only [Scene.noticing] at asked
  simp only [edit, bind, StateT.bind, Host.read, Host.say, opened, asked, addPerson, added, saved]
  cases outcome <;> rfl

end Opened

/-- A run whose editing comes to its end succeeds. -/
theorem run_of_edit_ok
    (h : edit (m := StateM Scene) path ⟨directory, input, "", ""⟩ = (.ok (), after))
    : (run [path] directory input).code = 0
      ∧ (run [path] directory input).directory = after.directory := by
  simp only [run, program, bind, StateT.bind, h]
  exact ⟨rfl, rfl⟩

/-- A run whose editing fails and touches no file only complains after it. -/
theorem run_of_edit_error {cause : ProgramError}
    (h : edit (m := StateM Scene) path ⟨directory, input, "", ""⟩ = (.error cause, after))
    (files : after.directory = directory)
    : (run [path] directory input).code = 1
      ∧ (run [path] directory input).directory = directory := by
  simp only [run, program, bind, StateT.bind, h]
  exact ⟨rfl, files⟩

/-- Contents hold a book in whose people nothing is missing, and an input spells a person. -/
structure Accepts (contents? : Option Bytes) (input : Bytes) (old : Record) (contact : Contact)
    : Prop where
  stored : storedBook? contents? = some old
  complete : ∀ person, old.Holds person → person.missing = []
  spelled : contact.SpelledBy input

/-- A file with a plain name is written in any scene. -/
theorem Scene.write_plain (plain : Directory.PlainName path) (scene : Scene) (bytes : Bytes)
    : (Host.write path bytes : StateM Scene (Except IoError Unit)) scene
      = (.ok (), { scene with directory := scene.directory.put path bytes }) := by
  simp only [Host.write, Directory.write_plain plain]

/-- A run on a file with a plain name that may take up a person writes the book with that person. -/
theorem Accepts.run {old : Record} {contact : Contact} (plain : Directory.PlainName path)
    (h : Accepts (directory.contents? path) input old contact)
    : (AddressBook.run [path] directory input).code = 0
      ∧ (AddressBook.run [path] directory input).directory
        = directory.put path (withPerson old contact).bytes := by
  let scene : Scene := ⟨directory, input, "", ""⟩
  have isBook := (isBook_of_stored h.stored).1
  have complete := (isBook.withPerson_complete_iff h.spelled).mpr h.complete
  obtain ⟨isNew, opened⟩ := openBook_eq_ok_iff.mpr h.stored
  rw [← Directory.read_plain plain] at opened
  have ends := Interview.ends_start_iff.mpr ⟨contact, h.spelled, rfl⟩
  obtain ⟨after, asked, files⟩ := ends.ask (scene.noticing path isNew) rfl
  have saved := Store.saveWith_complete complete (after.write_plain plain _)
  have added := isBook.append_eq h.spelled
  obtain ⟨succeeds, written⟩ := run_of_edit_ok (edit_asked scene opened asked added saved)
  exact ⟨succeeds, by rw [written, files]; rfl⟩

/-- A run on a file with a plain name that may not take up a person fails, and changes nothing. -/
theorem run_unless_accepts (plain : Directory.PlainName path)
    (h : ¬ ∃ old contact, Accepts (directory.contents? path) input old contact)
    : (run [path] directory input).code = 1
      ∧ (run [path] directory input).directory = directory := by
  let scene : Scene := ⟨directory, input, "", ""⟩
  cases opened : openBook (directory.read path) with
  | error cause => exact run_of_edit_error (edit_unopened scene opened) rfl
  | ok opening =>
      obtain ⟨old, isNew⟩ := opening
      have stored := openBook_eq_ok_iff.mp ⟨isNew, opened⟩
      rw [Directory.read_plain plain] at stored
      obtain ⟨outcome, ends⟩ := Interview.exists_ends .start input
      obtain ⟨after, asked, files⟩ := ends.ask (scene.noticing path isNew) rfl
      cases outcome with
      | error cause => exact run_of_edit_error (edit_unasked scene opened asked) files
      | ok person =>
          obtain ⟨contact, spelled, rfl⟩ := Interview.ends_start_iff.mp ends
          have isBook := (isBook_of_stored stored).1
          have incomplete : (withPerson old contact).isComplete = false := by
            refine Bool.eq_false_iff.mpr (fun complete => h ⟨old, contact, ?_⟩)
            exact ⟨stored, (isBook.withPerson_complete_iff spelled).mp complete, spelled⟩
          have added := isBook.append_eq spelled
          have refused := Store.saveWith_incomplete incomplete (Host.write path) after
          exact run_of_edit_error (edit_asked scene opened asked added refused) files

/-- A book that is written is read again as it was, with one more person. -/
theorem Accepts.saved {old : Record} {contact : Contact} (plain : Directory.PlainName path)
    (h : Accepts (directory.contents? path) input old contact)
    : ∃ bytes new,
        (AddressBook.run [path] directory input).directory.contents? path = some bytes
        ∧ (∀ other,
            other ≠ path
            → (AddressBook.run [path] directory input).directory.contents? other
              = directory.contents? other)
        ∧ GainsPerson old new contact
        ∧ (bytes.length < 2 ^ 63 → Record.decode schema book.name bytes {} = .ok new) := by
  obtain ⟨isBook, shallow⟩ := isBook_of_stored h.stored
  refine ⟨(withPerson old contact).bytes, withPerson old contact, ?_, ?_, ?_, ?_⟩
  · rw [(h.run plain).2, Directory.contents?_put, if_pos rfl]
  · intro other hother
    rw [(h.run plain).2, Directory.contents?_put, if_neg hother]
  · exact isBook.gainsPerson contact
  · intro short
    have added := isBook.withPerson h.spelled
    have hd := added.conforms.decode_bytes schema_built
      (isBook.depth_withPerson_le h.spelled shallow (by decide)) (Nat.lt_trans short (by decide))
    rwa [added.typed] at hd

/-- A run on a file with a plain name. The interview comes to an end. If the run fails, the
directory is as it was. It succeeds exactly if the file holds a book or is not there, nothing is
missing in the people of the book, and the input spells a person. Then the file holds the book with
that person at its end, and the other files are as they were.
-/
theorem run_adds_person (plain : Directory.PlainName path) (directory : Directory) (input : Bytes)
    : (∃ outcome,
        Interview.start.Ends input outcome
        ∧ ∀ scene : Scene,
            scene.input = input
            → ∃ after, Interview.start.ask (m := StateM Scene) scene = (outcome, after))
      ∧ ((run [path] directory input).code = 0 ∨ (run [path] directory input).code = 1)
      ∧ ((run [path] directory input).code ≠ 0
        → (run [path] directory input).directory = directory)
      ∧ ((run [path] directory input).code = 0
        ↔ ∃ old contact, Accepts (directory.contents? path) input old contact)
      ∧ ∀ old contact,
          Accepts (directory.contents? path) input old contact
          → ∃ bytes new,
            (run [path] directory input).directory.contents? path = some bytes
            ∧ (∀ other,
                other ≠ path
                → (run [path] directory input).directory.contents? other
                  = directory.contents? other)
            ∧ GainsPerson old new contact
            ∧ (bytes.length < 2 ^ 63 → Record.decode schema book.name bytes {} = .ok new) := by
  have ending := Interview.exists_ask .start input
  by_cases accepts : ∃ old contact, Accepts (directory.contents? path) input old contact
  · obtain ⟨old, contact, h⟩ := accepts
    have succeeds := (h.run plain).1
    exact ⟨ending, .inl succeeds, fun fails => absurd succeeds fails,
      iff_of_true succeeds ⟨old, contact, h⟩, fun _ _ => Accepts.saved plain⟩
  · obtain ⟨fails, same⟩ := run_unless_accepts plain accepts
    exact ⟨ending, .inr fails, fun _ => same, iff_of_false (by simp [fails]) accepts,
      fun _ _ => Accepts.saved plain⟩

end Runs

/-- A stored book with someone called Bo. There is a field from elsewhere in it, and one in the
person.
-/
def storedBytes : Bytes :=
  [0x0A, 0x08, 0x0A, 0x02, 0x42, 0x6F, 0x10, 0x07, 0x28, 0x01, 0x10, 0x05]

/-- The record of Bo as stored. -/
def storedPerson : Record :=
  ⟨schema, person, [(1, .single (.scalar (.string "Bo"))), (2, .single (.scalar (.int32 7)))],
    [(5, [⟨5, .varint, [0x28, 0x01]⟩])]⟩

/-- The book that is stored. -/
def storedBook : Record :=
  ⟨schema, book, [(1, .repeated [.message storedPerson])], [(2, [⟨2, .varint, [0x10, 0x05]⟩])]⟩

/-- What is typed to add Ann: her number between blanks, an e-mail address at the end of which a
carriage return is typed too, a telephone at work and one of a sort that is not known.
-/
def typedInput : Bytes :=
  Scalar.utf8 " +42 \nAnn\nann@example.com\r\n555-0100\nwork\n555-0199\nfax\n\n"

/-- Ann, as typed. -/
def typedContact : Contact :=
  ⟨42, "Ann", some "ann@example.com", [⟨"555-0100", some 2⟩, ⟨"555-0199", none⟩]⟩

/-- Bo is read from bytes, and then added to a book with the field from elsewhere. -/
theorem reachable_storedBook : storedBook.Reachable schema := by
  have read : Record.decode schema book.name [0x10, 0x05] {}
      = .ok ⟨schema, book, [], [(2, [⟨2, .varint, [0x10, 0x05]⟩])]⟩ := rfl
  have readPerson : Record.decode schema person.name
      [0x0A, 0x02, 0x42, 0x6F, 0x10, 0x07, 0x28, 0x01] {} = .ok storedPerson := rfl
  have given : ∀ other ∈ (Edit.append 1 (.message storedPerson)).given,
      other.Reachable schema := by
    intro other ho
    obtain rfl := List.mem_singleton.mp ho
    exact .decoded readPerson
  exact .edited [] (.decoded read) given

/-- The stored bytes hold the book with Bo. -/
theorem storedBook?_storedBytes : storedBook? (some storedBytes) = some storedBook := by
  have written : storedBook.bytes = storedBytes := by decide +kernel
  have shallow : storedBook.depth ≤ 100 := by decide
  have short : storedBook.bytes.length < 2 ^ 64 := by rw [written]; decide
  have read := reachable_storedBook.conforms.decode_bytes schema_built shallow short
  rw [written] at read
  simp only [storedBook?]
  exact congrArg Except.toOption read

/-- The lines that are typed spell Ann. -/
theorem spelledBy_typedInput : typedContact.SpelledBy typedInput := by
  have blank : ∀ c ∈ [' '], c ∈ whiteSpace := by simp [whiteSpace]
  have id : SpellsNumber " +42 " typedContact.id.toInt :=
    @SpellsNumber.amid [' '] ['+', '4', '2'] [' '] 42 blank (@SpellsInteger.plus [4, 2] (by decide))
      blank
  have fax : SortWord "fax" none := .other (by decide)
  have phones : SpellPhones (Scalar.utf8 "555-0100\nwork\n555-0199\nfax\n\n")
      typedContact.phones := by
    refine .phone (typedLine_next ?_) (by decide) (typedLine_next ?_) .work
      (.phone (typedLine_next ?_) (by decide) (typedLine_next ?_) fax
        (.blank (typedLine_next ?_)))
    all_goals decide +kernel
  refine .told (typedLine_next ?_) id (typedLine_next ?_) (typedLine_iff.mpr ⟨?_, ?_⟩)
    (.address (by decide)) phones
  all_goals decide +kernel

/-- A person who is typed is put behind the one who is stored. -/
theorem run_adds_person_ann
    : Directory.PlainName "people"
      ∧ Accepts (some storedBytes) typedInput storedBook typedContact
      ∧ (run ["people"] (Directory.empty.put "people" storedBytes) typedInput).code = 0
      ∧ ∃ bytes new,
        (run ["people"] (Directory.empty.put "people" storedBytes) typedInput).directory.contents?
            "people"
          = some bytes
        ∧ GainsPerson storedBook new typedContact
        ∧ Record.decode schema book.name bytes {} = .ok new := by
  have plain : Directory.PlainName "people" := by constructor <;> decide
  have complete : ∀ person, storedBook.Holds person → person.missing = [] := by
    intro person holds
    obtain rfl : person = storedPerson := by
      simpa [Record.Holds, storedBook, Slot.values] using holds
    rfl
  have accepts
      : Accepts ((Directory.empty.put "people" storedBytes).contents? "people") typedInput
          storedBook typedContact :=
    ⟨storedBook?_storedBytes, complete, spelledBy_typedInput⟩
  obtain ⟨_, _, _, succeeds, saved⟩ :=
    run_adds_person plain (Directory.empty.put "people" storedBytes) typedInput
  obtain ⟨bytes, new, held, _, gains, decoded⟩ := saved _ _ accepts
  have written : bytes = (withPerson storedBook typedContact).bytes := by
    rw [(accepts.run plain).2, Directory.contents?_put, if_pos rfl] at held
    exact (Option.some.inj held).symm
  have short : bytes.length < 2 ^ 63 := by
    rw [written]
    decide +kernel
  exact ⟨plain, accepts, succeeds.mpr ⟨_, _, accepts⟩, bytes, new, held, gains, decoded short⟩

end TagWire.AddressBook
