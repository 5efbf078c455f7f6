import TagWire.AddressBook.Program

/-!
The command line of the address book program. It meets the file system and the terminal; what is
asked, kept and written is decided elsewhere.
-/

namespace TagWire.AddressBook

/-- The contents of a file, if it can be read. -/
def readFile (path : String) : IO (Option Bytes) := do
  try
    let contents ← IO.FS.readBinFile path
    return some contents.data.toList
  catch _ => return none

/-- What a failure to write comes from. -/
def writeFailure : IO.Error → IoError
  | .noFileOrDirectory .. => .notFound
  | .inappropriateType _ 20 _ => .notDirectory
  | .inappropriateType _ 21 _ => .isDirectory
  | .invalidArgument _ 36 _ => .nameTooLong
  | .permissionDenied _ code text | .resourceExhausted _ code text =>
      .other s!"{text} (os error {code})"
  | cause => .other (toString cause)

/-- Write a file, or say why not. -/
def writeFile (path : String) (bytes : Bytes) : IO (Except IoError Unit) := do
  try
    IO.FS.writeBinFile path ⟨bytes.toArray⟩
    return .ok ()
  catch cause => return .error (writeFailure cause)

/-- Read bytes up to the end of a line or of the input. -/
def readLine (input : IO.FS.Stream) : IO Bytes :=
  repeatM
    (fun line => do
      match (← input.read 1).data.toList with
      | [] => return .inr line
      | byte :: _ => return if byte = 10 then .inr (line ++ [byte]) else .inl (line ++ [byte]))
    []

instance : Host IO where
  read := readFile
  write := writeFile
  hear := do readLine (← IO.getStdin)
  say text := do
    let output ← IO.getStdout
    output.putStr text
    output.flush
  complain := IO.eprint

end TagWire.AddressBook

/-- The address book program. -/
def main (arguments : List String) : IO UInt32 := do
  return (← TagWire.AddressBook.program arguments).toUInt32
