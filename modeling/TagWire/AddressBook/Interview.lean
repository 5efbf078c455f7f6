import TagWire.AddressBook.Host
import TagWire.AddressBook.Schema
import TagWire.Record.Access
import TagWire.Text.Blank
import TagWire.Text.Integer

/-!
Asking for a new person. The interview goes from question to question; each answer is a line, and
a number that is left blank ends it.
-/

namespace TagWire.AddressBook

/-- The question that is next. -/
inductive Stage where
  | id
  | name
  | email
  | phone
  | phoneSort (number : String)
  | done
  deriving DecidableEq, Repr

/-- The text of a question. -/
def Stage.prompt : Stage → String
  | id => "Enter person ID number: "
  | name => "Enter name: "
  | email => "Enter email address (blank for none): "
  | phone => "Enter a phone number (or leave blank to finish): "
  | phoneSort _ => "Is this a mobile, home, or work phone? "
  | done => ""

/-- Why an interview ends early. -/
inductive InterviewError where
  | notAnId (answer : String)
  | record (cause : RecordError)
  | io (cause : IoError)
  deriving DecidableEq, Inhabited, Repr

/-- The text of an interview error. -/
def InterviewError.message : InterviewError → String
  | notAnId answer => s!"`{answer}` is not an ID number"
  | record cause => cause.message
  | io cause => cause.message

/-- What is known of the person so far, and the next question. -/
structure Interview where
  person : Record
  stage : Stage

namespace Interview

/-- An interview about a person of whom nothing is known. -/
def start : Interview := ⟨Record.empty schema AddressBook.person, .id⟩

/-- The number of a sort of telephone by the word for it. -/
def phoneSort? : String → Option Int32
  | "mobile" => some 0
  | "home" => some 1
  | "work" => some 2
  | _ => none

/-- A telephone of a sort, or of the default sort. -/
def phoneRecord (number : String) (sort? : Option Int32) : Except RecordError Record := do
  let phone ← (Record.empty schema AddressBook.phone).set 1 (.scalar (.string number))
  match sort? with
  | some sort => phone.set 2 (.scalar (.enum sort))
  | none => return phone

/-- Take an answer. Beside the interview it leads to there is a remark, mostly empty. -/
def answer (interview : Interview) (text : String)
    : Except InterviewError (Interview × String) :=
  let person := interview.person
  let proceed (changed : Except RecordError Record) (stage : Stage) (remark : String) :=
    match changed with
    | .ok person => .ok (⟨person, stage⟩, remark)
    | .error cause => .error (.record cause)
  match interview.stage with
  | .id =>
      match int32? (trimBlank text.toList) with
      | some n => proceed (person.set 2 (.scalar (.int32 n))) .name ""
      | none => .error (.notAnId text)
  | .name => proceed (person.set 1 (.scalar (.string text))) .email ""
  | .email =>
      if text.isEmpty then proceed (.ok person) .phone ""
      else proceed (person.set 3 (.scalar (.string text))) .phone ""
  | .phone =>
      if text.isEmpty then proceed (.ok person) .done ""
      else proceed (.ok person) (.phoneSort text) ""
  | .phoneSort number =>
      let sort? := phoneSort? text
      let remark := if sort?.isSome then "" else "Unknown phone type.  Using default.\n"
      proceed (do person.append 4 (.message (← phoneRecord number sort?))) .phone remark
  | .done => proceed (.ok person) .done ""

/-- The text of a line of input, without its end. -/
def lineText (line : Bytes) : Except InterviewError String :=
  match String.fromUTF8? ⟨line.toArray⟩ with
  | some text => .ok (String.ofList (chomp text.toList))
  | none => .error (.io (.other "stream did not contain valid UTF-8"))

variable {m : Type → Type} [Monad m] [Host m]

/-- Put the question that is next, and take the answer to it. -/
def turn (interview : Interview) : m (Except InterviewError Interview) := do
  Host.say interview.stage.prompt
  match lineText (← Host.hear) with
  | .error cause => return .error cause
  | .ok text =>
      match interview.answer text with
      | .error cause => return .error cause
      | .ok (next, remark) =>
          Host.say remark
          return .ok next

/-- Take a turn, unless the interview is done. What comes of it is an interview to go on with, or the
end. -/
def advance (interview : Interview) : m (Interview ⊕ Except InterviewError Record) := do
  if interview.stage = .done then return .inr (.ok interview.person)
  else
    match ← interview.turn with
    | .error cause => return .inr (.error cause)
    | .ok next => return .inl next

/-- Put question after question until the interview is done. An input that has ended answers with
empty lines. -/
def ask (interview : Interview) : m (Except InterviewError Record) :=
  repeatM Interview.advance interview

end Interview

end TagWire.AddressBook
