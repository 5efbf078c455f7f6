/-!
Zig-zag numbering of signed words: 0, -1, 1, -2, 2 and so on, so that a number of small magnitude
has a short varint whatever its sign.
-/

namespace TagWire.ZigZag

/-- The place of a 32-bit number in the zig-zag order. The shift by 31 spreads the sign over the
word, and the exclusive or flips the doubled number of a negative one. -/
def encode32 (n : Int32) : UInt32 := ((n <<< 1) ^^^ (n >>> 31)).toUInt32

/-- The 32-bit number at a place of the zig-zag order. -/
def decode32 (place : UInt32) : Int32 := (place >>> 1).toInt32 ^^^ -(place &&& 1).toInt32

/-- The place of a 64-bit number in the zig-zag order. -/
def encode64 (n : Int64) : UInt64 := ((n <<< 1) ^^^ (n >>> 63)).toUInt64

/-- The 64-bit number at a place of the zig-zag order. -/
def decode64 (place : UInt64) : Int64 := (place >>> 1).toInt64 ^^^ -(place &&& 1).toInt64

end TagWire.ZigZag
