import Mathlib.Logic.Relation
import TagWire.Proofs.Encoding.RoundTrip

/-!
Runs of programs over records of one schema. A program holds records and gives one command after the
other: it makes and decodes records, copies them out of others, and works on what a path leads to.
Whatever is refused on the way, all that it holds respects its type at every depth.
-/

namespace TagWire

/-- What a program puts into a field: a scalar, or a copy of a record that it holds. -/
inductive Operand where
  | scalar (value : Scalar)
  | record (index : Nat)

/-- An operation on a record. Records that it is given are named by their places among those that
the program holds.
-/
inductive Action where
  | set (tag : Nat) (operand : Operand)
  | append (tag : Nat) (operand : Operand)
  | clear (tag : Nat)
  | addMessage (tag : Nat)
  | merge (index : Nat)
  | mergeBytes (bytes : Bytes)
  | dropUnknown
  /-- Nothing, where a path leads. To follow it may set message fields on the way. -/
  | visit

/-- A step of a program. -/
inductive Command where
  | make (name : String)
  | decode (name : String) (bytes : Bytes) (options : DecodeOptions)
  /-- Copy the record that a path leads to. -/
  | copy (index : Nat) (path : List Hop)
  /-- Work on the record that a path leads to. -/
  | act (index : Nat) (path : List Hop) (action : Action)

/-- The value that an operand stands for; none if no record is held at its place. -/
def Operand.value? (held : List Record) : Operand → Option Value
  | scalar value => some (.scalar value)
  | record index => held[index]?.map .message

/-- An operation with the records that it is given; none if one of them is not held. -/
def Action.edit? (held : List Record) : Action → Option Edit
  | set tag operand => (operand.value? held).map (.set tag)
  | append tag operand => (operand.value? held).map (.append tag)
  | clear tag => some (.clear tag)
  | addMessage tag => some (.addMessage tag)
  | merge index => held[index]?.map .merge
  | mergeBytes bytes => some (.mergeBytes bytes)
  | dropUnknown => some .dropUnknown
  | visit => some .visit

namespace Command

/-- The records that are held, and one more unless an error came of it. -/
def hold {ε : Type} (held : List Record) : Except ε Record → List Record
  | .ok record => held ++ [record]
  | .error _ => held

/-- The records that a program holds after a command. A command that is refused makes no record, and
one that names a record which is not held does nothing.
-/
def step (schema : Schema) (held : List Record) : Command → List Record
  | make name => hold held (Record.make schema name)
  | decode name bytes options => hold held (Record.decode schema name bytes options)
  | copy index path =>
      match held[index]? with
      | none => held
      | some record =>
          let (answer, record) := Record.actAt (fun nested => (nested, nested)) path record
          hold (held.set index record) answer
  | act index path action =>
      match held[index]?, action.edit? held with
      | some record, some edit => held.set index (record.editAt edit path)
      | _, _ => held

/-- The records that a program holds after its commands. It starts with none. -/
def run (schema : Schema) (commands : List Command) : List Record :=
  commands.foldl (step schema) []

end Command

section Invariance

variable {schema : Schema} {held : List Record}

/-- What is nested in a conforming record, at any depth, conforms. -/
theorem Record.Conforms.within {record nested : Record} (h : record.Conforms schema)
    (within : Relation.ReflTransGen Record.Holds record nested)
    : nested.Conforms schema := by
  induction within with
  | refl => exact h
  | tail _ holds ih => exact ih.inner holds

/-- An action that hands out the record it is given hands out a conforming one. -/
theorem Record.actAt_copy_conforms {record : Record} (hc : record.Conforms schema)
    (path : List Hop) {nested : Record}
    (h : (actAt (fun nested => (nested, nested)) path record).1 = .ok nested)
    : nested.Conforms schema := by
  induction path generalizing record with
  | nil =>
      obtain rfl : record = nested := Except.ok.inj h
      exact hc
  | cons hop rest ih =>
      rw [actAt] at h
      cases hr : record.reach hop with
      | error cause => simp [hr] at h
      | ok next =>
          rw [hr] at h
          exact ih (reach_keeps hc hr).1 h

theorem Operand.value?_conforms (conform : ∀ record ∈ held, record.Conforms schema)
    {operand : Operand} {nested : Record} (h : operand.value? held = some (.message nested))
    : nested.Conforms schema := by
  cases operand with
  | scalar value => simp [value?] at h
  | record index =>
      obtain ⟨record, hr, he⟩ := Option.map_eq_some_iff.mp h
      obtain rfl : record = nested := Value.message.inj he
      exact conform record (List.mem_of_getElem? hr)

/-- The records that an operation is given conform if all that are held do. -/
theorem Action.edit?_given_conform (conform : ∀ record ∈ held, record.Conforms schema)
    {action : Action} {edit : Edit} (h : action.edit? held = some edit)
    : ∀ other ∈ edit.given, other.Conforms schema := by
  have ofValue {operand : Operand} {value : Value} (hv : operand.value? held = some value)
      {other : Record} (ho : value = .message other)
      : other.Conforms schema :=
    Operand.value?_conforms conform (ho ▸ hv)
  intro other ho
  cases action with
  | set tag operand =>
      obtain ⟨value, hv, rfl⟩ := Option.map_eq_some_iff.mp h
      cases value with
      | scalar scalar => simp [Edit.given] at ho
      | message record => exact ofValue hv (congrArg _ (List.mem_singleton.mp ho).symm)
  | append tag operand =>
      obtain ⟨value, hv, rfl⟩ := Option.map_eq_some_iff.mp h
      cases value with
      | scalar scalar => simp [Edit.given] at ho
      | message record => exact ofValue hv (congrArg _ (List.mem_singleton.mp ho).symm)
  | merge index =>
      obtain ⟨record, hr, rfl⟩ := Option.map_eq_some_iff.mp h
      rw [List.mem_singleton.mp ho]
      exact conform record (List.mem_of_getElem? hr)
  | clear tag | addMessage tag | mergeBytes bytes | dropUnknown | visit =>
      obtain rfl := Option.some.inj h
      simp [Edit.given] at ho

namespace Command

theorem hold_conform {ε : Type} {answer : Except ε Record}
    (conform : ∀ record ∈ held, record.Conforms schema)
    (h : ∀ record, answer = .ok record → record.Conforms schema)
    : ∀ record ∈ hold held answer, record.Conforms schema := by
  intro record hm
  cases answer with
  | error cause => exact conform record hm
  | ok made =>
      rcases List.mem_append.mp hm with hm | hm
      · exact conform record hm
      · exact h record (congrArg _ (List.mem_singleton.mp hm).symm)

theorem set_conform (conform : ∀ record ∈ held, record.Conforms schema) (index : Nat)
    {changed : Record} (h : changed.Conforms schema)
    : ∀ record ∈ held.set index changed, record.Conforms schema := by
  intro record hm
  rcases List.mem_or_eq_of_mem_set hm with hm | rfl
  · exact conform record hm
  · exact h

/-- A command keeps all that is held conforming. -/
theorem step_conform (command : Command) (conform : ∀ record ∈ held, record.Conforms schema)
    : ∀ record ∈ step schema held command, record.Conforms schema := by
  cases command with
  | make name =>
      exact hold_conform conform (fun record h => (Record.conforms_of_make h).1)
  | decode name bytes options =>
      exact hold_conform conform (fun record h => (Record.conforms_of_decode h).1)
  | copy index path =>
      rw [step]
      cases hi : held[index]? with
      | none => exact conform
      | some record =>
          have hc := conform record (List.mem_of_getElem? hi)
          have changed
              : record.Keeps schema (Record.actAt (fun nested => (nested, nested)) path record).2 :=
            Record.actAt_keeps (fun nested hn => ⟨hn, rfl⟩) path hc
          exact hold_conform (set_conform conform index changed.1)
            (fun nested h => Record.actAt_copy_conforms hc path h)
  | act index path action =>
      rw [step]
      cases hi : held[index]? with
      | none => exact conform
      | some record =>
          cases he : action.edit? held with
          | none => exact conform
          | some edit =>
              have given := Action.edit?_given_conform conform he
              exact set_conform conform index
                (Record.actAt_keeps (fun nested hn => Record.apply_keeps given hn) path
                  (conform record (List.mem_of_getElem? hi))).1

/-- A program only ever holds conforming records, by induction on its commands. -/
theorem run_conform (commands : List Command)
    : ∀ record ∈ run schema commands, record.Conforms schema := by
  have from' : ∀ held : List Record, (∀ record ∈ held, record.Conforms schema)
      → ∀ record ∈ commands.foldl (step schema) held, record.Conforms schema := by
    induction commands with
    | nil => exact fun _ conform => conform
    | cons command rest ih => exact fun held conform => ih _ (step_conform command conform)
  exact from' [] (by simp)

/-- Whatever commands a program gives, and whichever of them are refused, every record that it holds
and every record nested in one respects its type: its slots are of declared fields and of their
shapes and kinds, its numbers are declared, and the units that it keeps are whole ones, under their
own tags, which the type has no place for.
-/
theorem sound_of_mem_run {commands : List Command} {record nested : Record}
    (held : record ∈ run schema commands)
    (within : Relation.ReflTransGen Record.Holds record nested)
    : nested.Sound schema :=
  ((run_conform commands record held).within within).here

end Command

end Invariance

namespace AddressBook

/-- A telephone of a sort that is not declared is read, and a copy of it is given to a new person.
Two commands are refused: there is no such type, and a name is no number.
-/
def ownerCommands : List Command :=
  [.decode phone.name [0x10, 0x09] {}, .make "tutorial.Nobody", .make person.name,
    .act 1 [] (.set 2 (.scalar (.string "Ann"))), .act 1 [] (.append 4 (.record 0))]

/-- The telephone that the person has at the end respects its type. -/
theorem sound_oddTelephone
    : owner ∈ Command.run schema ownerCommands
      ∧ Relation.ReflTransGen Record.Holds owner oddTelephone
      ∧ oddTelephone.Sound schema := by
  have run : Command.run schema ownerCommands = [oddTelephone, owner] := rfl
  have held : owner ∈ Command.run schema ownerCommands := by simp [run]
  have holds : owner.Holds oddTelephone := ⟨_, List.mem_cons_self, List.mem_cons_self⟩
  exact ⟨held, .single holds, Command.sound_of_mem_run held (.single holds)⟩

end AddressBook

end TagWire
