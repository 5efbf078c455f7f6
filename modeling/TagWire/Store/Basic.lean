import TagWire.Decoding.Basic
import TagWire.Encoding.Basic
import TagWire.Store.Medium

/-!
Loading records from sources and saving them to sinks. A source without contents is no error: it is
a first run. A record is encoded in full before a sink is touched.
-/

namespace TagWire

/-- Why a record could not be loaded or saved. -/
inductive StoreError where
  | decode (cause : DecodeError)
  | encode (cause : EncodeError)
  | record (cause : RecordError)
  | io (cause : IoError)
  deriving DecidableEq, Repr

/-- The text of a store error. -/
def StoreError.message : StoreError → String
  | decode cause => s!"stored bytes could not be decoded: {cause.message}"
  | encode cause => s!"record could not be encoded: {cause.message}"
  | record cause => cause.message
  | io cause => s!"destination write failed: {cause.message}"

namespace Store

variable {σ : Type}

/-- Decode the contents of a source, if there are any. -/
def load [Source σ] (source : σ) (schema : Schema) (name : String) (options : DecodeOptions)
    : Except StoreError (Option Record) :=
  match Source.read source with
  | none => .ok none
  | some bytes =>
      match Record.decode schema name bytes options with
      | .ok record => .ok (some record)
      | .error cause => .error (.decode cause)

/-- Decode the contents of a source, or start with an empty record. -/
def loadOrCreate [Source σ] (source : σ) (schema : Schema) (name : String)
    (options : DecodeOptions) : Except StoreError Record :=
  match load source schema name options with
  | .error cause => .error cause
  | .ok (some record) => .ok record
  | .ok none =>
      match Record.make schema name with
      | .ok record => .ok record
      | .error cause => .error (.record cause)

/-- Encode a complete record and hand it to what writes it. The answer is the number of bytes. -/
def saveWith {m : Type → Type} [Monad m] (write : Bytes → m (Except IoError Unit))
    (record : Record) : m (Except StoreError Nat) := do
  match record.encode with
  | .error cause => return .error (.encode cause)
  | .ok bytes =>
      match ← write bytes with
      | .ok () => return .ok bytes.length
      | .error cause => return .error (.io cause)

/-- Encode a complete record and write it to a sink. The answer is the number of bytes. -/
def save [Sink σ] (record : Record) (sink : σ) : Except StoreError Nat × σ :=
  saveWith (m := StateM σ) (fun bytes sink => Sink.write sink bytes) record sink

end Store

end TagWire
