import TagWire.TagMap
import TagWire.Wire.Kind

/-!
Units that a message type does not declare are kept as they came, key and all, so that a record
can be written back without losing them. They are grouped by tag and stay in order of arrival
within a tag.
-/

namespace TagWire

/-- A unit that was not understood: its tag, its wire kind, and all its bytes. -/
structure RawUnit where
  tag : Nat
  wire : WireKind
  bytes : Bytes
  deriving DecidableEq, Repr

/-- Units by tag, in order of arrival. No tag has an empty list. -/
abbrev UnknownSet := TagMap (List RawUnit)

namespace UnknownSet

/-- The units with a tag, in order of arrival. -/
def unitsAt (set : UnknownSet) (tag : Nat) : List RawUnit := (TagMap.find? set tag).getD []

/-- All units, by ascending tag. -/
def units (set : UnknownSet) : List RawUnit := set.flatMap Prod.snd

/-- The number of units. -/
def size (set : UnknownSet) : Nat := set.units.length

/-- The number of bytes of all units. -/
def weight (set : UnknownSet) : Nat :=
  set.units.foldl (fun total unit => total + unit.bytes.length) 0

/-- Add units with a tag after those that are held. -/
def extendAt (set : UnknownSet) (tag : Nat) (more : List RawUnit) : UnknownSet :=
  TagMap.insert tag (unitsAt set tag ++ more) set

/-- Add one unit after those with its tag. -/
def push (set : UnknownSet) (unit : RawUnit) : UnknownSet := extendAt set unit.tag [unit]

/-- Add the units of another set after those that are held, tag by tag. -/
def extend (set more : UnknownSet) : UnknownSet :=
  more.foldl (fun set entry => extendAt set entry.1 entry.2) set

end UnknownSet

end TagWire
