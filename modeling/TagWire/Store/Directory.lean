import TagWire.Store.Medium

/-!
A directory of plain files, and the paths that lead from it to a file. A path is followed part by
part: the directory itself and those around it are there to go through, and no others are.
-/

namespace TagWire

/-- A directory of plain files. A file of a directory around it has the way there in its name. -/
structure Directory where
  files : List (String × Bytes)
  deriving DecidableEq, Inhabited, Repr

namespace Directory

/-- A directory without files. -/
def empty : Directory := ⟨[]⟩

/-- The contents of a file. -/
def contents? (directory : Directory) (name : String) : Option Bytes := directory.files.lookup name

/-- Put a file into a directory, over the one that may be there. -/
def put (directory : Directory) (name : String) (bytes : Bytes) : Directory :=
  ⟨(name, bytes) :: directory.files.filter (fun file => file.1 != name)⟩

/-- The most bytes in one part of a path. -/
def maxPart : Nat := 255

/-- The most bytes in a path. -/
def maxPath : Nat := 4095

/-- The parts of a path, empty ones included. -/
def parts (path : String) : List String := (path.toList.splitOn '/').map String.ofList

/-- The way to the directory above the one at the end of a way; the root is its own. -/
def above (way : String) : String := if way = "/" then way else "../" ++ way

/-- Follow the parts of a path from the directory at the end of a way. Only the last part can name
a file, and only if nothing comes after it; a way through a file, or through nothing, ends there. -/
def follow (directory : Directory) (way : String) : List String → Except IoError String
  | [] => .error .isDirectory
  | part :: rest =>
      if part = "" ∨ part = "." then follow directory way rest
      else if part = ".." then follow directory (above way) rest
      else if rest ≠ [] ∧ rest.all (fun next => next = "") then .error .isDirectory
      else if maxPart < part.utf8ByteSize then .error .nameTooLong
      else if rest = [] then .ok (way ++ part)
      else if (directory.contents? (way ++ part)).isSome then .error .notDirectory
      else .error .notFound

/-- The file that a path leads to, there or not. A path that starts with a slash starts at the
root. -/
def locate (directory : Directory) (path : String) : Except IoError String :=
  if path = "" then .error .notFound
  else if maxPath < path.utf8ByteSize then .error .nameTooLong
  else directory.follow (if path.toList.head? = some '/' then "/" else "") (parts path)

/-- Read what a path leads to; only a file has contents. -/
def read (directory : Directory) (path : String) : Option Bytes :=
  match directory.locate path with
  | .ok name => directory.contents? name
  | .error _ => none

/-- Write to the file that a path leads to. -/
def write (directory : Directory) (path : String) (bytes : Bytes)
    : Except IoError Unit × Directory :=
  match directory.locate path with
  | .ok name => (.ok (), directory.put name bytes)
  | .error cause => (.error cause, directory)

end Directory

/-- A path in a directory. -/
structure File where
  directory : Directory
  path : String
  deriving DecidableEq, Repr

instance : Source File where
  read file := file.directory.read file.path

instance : Sink File where
  write file bytes :=
    let (outcome, directory) := file.directory.write file.path bytes
    (outcome, { file with directory })

end TagWire
