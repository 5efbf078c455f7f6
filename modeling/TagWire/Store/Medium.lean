import TagWire.Wire.Kind

/-!
Where encoded records come from and go to: byte strings, and writers with little room. A source has
contents or none, and a sink takes new contents or says why not.
-/

namespace TagWire

/-- Why reading or writing failed outside the program. -/
inductive IoError where
  | notFound
  | notDirectory
  | isDirectory
  | nameTooLong
  | other (text : String)
  deriving DecidableEq, Repr

/-- The text of a failure outside. -/
def IoError.message : IoError → String
  | notFound => "No such file or directory (os error 2)"
  | notDirectory => "Not a directory (os error 20)"
  | isDirectory => "Is a directory (os error 21)"
  | nameTooLong => "File name too long (os error 36)"
  | other text => text

/-- Something whose whole contents can be read. -/
class Source (σ : Type) where
  /-- The contents, if there are any. -/
  read : σ → Option Bytes

/-- Something whose whole contents can be replaced. -/
class Sink (σ : Type) where
  /-- Replace the contents, or fail; what has become of the sink is there in either case. -/
  write : σ → Bytes → Except IoError Unit × σ

instance : Source Bytes where
  read bytes := some bytes

instance : Sink Bytes where
  write _ bytes := (.ok (), bytes)

instance : Source (Option Bytes) where
  read bytes := bytes

/-- A writer that takes bytes as long as there is room, and then has to pass them on. -/
structure Writer where
  taken : Bytes
  room : Nat
  /-- The failure for want of room. -/
  full : IoError
  /-- The failure to pass the bytes on, if it fails. -/
  stuck : Option IoError
  deriving DecidableEq, Repr

instance : Sink Writer where
  write writer bytes :=
    let after :=
      { writer with
        taken := writer.taken ++ bytes.take writer.room
        room := writer.room - bytes.length }
    if writer.room < bytes.length then (.error writer.full, after)
    else
      match writer.stuck with
      | some failure => (.error failure, after)
      | none => (.ok (), after)

end TagWire
