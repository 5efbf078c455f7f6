/-!
The four wire kinds and the key that opens every unit. A key carries a tag and the wire kind of
the payload that follows it, so a reader can step over a unit that no field declares.
-/

namespace TagWire

/-- A sequence of bytes as it stands in a buffer or a file. -/
abbrev Bytes := List UInt8

/-- How the payload of a unit is laid out. -/
inductive WireKind where
  | varint
  | fixed64
  | lengthDelimited
  | fixed32
  deriving DecidableEq, Repr, Inhabited

namespace WireKind

/-- The three-bit code of a wire kind in a key. -/
def code : WireKind → Nat
  | varint => 0
  | fixed64 => 1
  | lengthDelimited => 2
  | fixed32 => 5

/-- The wire kind with a given code; codes 3, 4, 6 and 7 name none. -/
def ofCode? : Nat → Option WireKind
  | 0 => some varint
  | 1 => some fixed64
  | 2 => some lengthDelimited
  | 5 => some fixed32
  | _ => none

/-- The name of a wire kind in messages and listings. -/
def name : WireKind → String
  | varint => "VARINT"
  | fixed64 => "FIXED64"
  | lengthDelimited => "LENGTH_DELIMITED"
  | fixed32 => "FIXED32"

theorem ofCode?_code (kind : WireKind) : ofCode? kind.code = some kind := by
  cases kind <;> rfl

theorem code_lt (kind : WireKind) : kind.code < 8 := by
  cases kind <;> decide

end WireKind

/-- The largest tag a field may have. -/
def maxTag : Nat := (1 <<< 29) - 1

/-- Tags set aside for the format itself, which no field may claim. -/
def isReservedTag (tag : Nat) : Bool := 19000 ≤ tag && tag ≤ 19999

namespace Key

/-- A tag and a wire kind as one number: the kind fills the low three bits. -/
def pack (tag : Nat) (kind : WireKind) : Nat := tag * 8 + kind.code

/-- The tag and the kind code that a key carries; neither is checked. -/
def split (key : Nat) : Nat × Nat := (key / 8, key % 8)

theorem split_pack (tag : Nat) (kind : WireKind) : split (pack tag kind) = (tag, kind.code) := by
  have h := kind.code_lt
  simp only [split, pack, Prod.mk.injEq]
  omega

end Key

end TagWire
