import TagWire.AddressBook.Interview
import TagWire.Store.Basic

/-!
The address book program: load the book that a file holds, or start a new one, ask for one more
person, and write the book back. If anything fails the file is left as it was.
-/

namespace TagWire.AddressBook

/-- Why the program fails. -/
inductive ProgramError where
  | store (cause : StoreError)
  | record (cause : RecordError)
  | interview (cause : InterviewError)
  deriving DecidableEq, Repr

/-- The text of a program error. -/
def ProgramError.message : ProgramError → String
  | store cause => cause.message
  | record cause => cause.message
  | interview cause => cause.message

/-- What the program says of a file that is not there. -/
def newFileNotice (path : String) : String :=
  s!"{path}: File not found.  Creating a new file.\n"

/-- How the program is called. -/
def usage : String := "Usage:  addressbook ADDRESS_BOOK_FILE\n"

/-- The book in the contents of a file, or a new one, and whether it is new. -/
def openBook (contents? : Option Bytes) : Except ProgramError (Record × Bool) :=
  match Store.load contents? schema book.name {} with
  | .error cause => .error (.store cause)
  | .ok (some record) => .ok (record, false)
  | .ok none => .ok (Record.empty schema book, true)

/-- A book with one more person at its end. -/
def addPerson (record person : Record) : Except ProgramError Record :=
  match record.append 1 (.message person) with
  | .ok record => .ok record
  | .error cause => .error (.record cause)

section Program

variable {m : Type → Type} [Monad m] [Host m]

/-- Ask for one more person for the book in a file. -/
def edit (path : String) : m (Except ProgramError Unit) := do
  match openBook (← Host.read path) with
  | .error cause => return .error cause
  | .ok (record, isNew) =>
      Host.say (if isNew then newFileNotice path else "")
      match ← Interview.start.ask with
      | .error cause => return .error (.interview cause)
      | .ok person =>
          match addPerson record person with
          | .error cause => return .error cause
          | .ok record =>
              match ← Store.saveWith (Host.write path) record with
              | .error cause => return .error (.store cause)
              | .ok _ => return .ok ()

/-- The program on its arguments. The answer is its exit code. -/
def program (arguments : List String) : m Nat := do
  match arguments with
  | [path] =>
      match ← edit path with
      | .ok () => return 0
      | .error cause =>
          Host.complain (cause.message ++ "\n")
          return 1
  | _ =>
      Host.complain usage
      return 1

end Program

/-- What a run leaves behind. -/
structure Run where
  code : Nat
  printed : String
  complaint : String
  directory : Directory
  deriving DecidableEq, Repr

/-- The program on its arguments, a directory and the whole of its input. -/
def run (arguments : List String) (directory : Directory) (input : Bytes) : Run :=
  let (code, scene) := (program arguments : StateM Scene Nat) ⟨directory, input, "", ""⟩
  ⟨code, scene.printed, scene.complaint, scene.directory⟩

end TagWire.AddressBook
