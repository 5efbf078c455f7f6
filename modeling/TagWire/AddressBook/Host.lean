import TagWire.Store.Directory

/-!
What the program asks of the world around it: the contents of files, lines of input, and room to
say something. A scene is a world in which the whole input is there from the start.
-/

namespace TagWire.AddressBook

/-- The operations of the world around the program. -/
class Host (m : Type → Type) where
  /-- The contents of a file, if it can be read. -/
  read : String → m (Option Bytes)
  /-- Replace the contents of a file, or say why not. -/
  write : String → Bytes → m (Except IoError Unit)
  /-- The next line of input, with the byte that ends it; nothing once the input has ended. -/
  hear : m Bytes
  /-- Print a text. -/
  say : String → m Unit
  /-- Print a text where complaints go. -/
  complain : String → m Unit

/-- The first line of an input, with the byte that ends it, and what comes after. -/
def nextLine : Bytes → Bytes × Bytes
  | [] => ([], [])
  | byte :: rest =>
      if byte = 10 then ([byte], rest)
      else
        let (line, rest) := nextLine rest
        (byte :: line, rest)

/-- A directory, the input that is left, and what has been printed. -/
structure Scene where
  directory : Directory
  input : Bytes
  printed : String
  complaint : String
  deriving DecidableEq, Inhabited, Repr

instance : Host (StateM Scene) where
  read path scene := (scene.directory.read path, scene)
  write path bytes scene :=
    let (outcome, directory) := scene.directory.write path bytes
    (outcome, { scene with directory })
  hear scene :=
    let (line, input) := nextLine scene.input
    (line, { scene with input })
  say text scene := ((), { scene with printed := scene.printed ++ text })
  complain text scene := ((), { scene with complaint := scene.complaint ++ text })

end TagWire.AddressBook
