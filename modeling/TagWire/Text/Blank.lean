/-!
White space, as the Unicode property of that name has it, and trimming it from a text.
-/

namespace TagWire

/-- Whether a character is white space. -/
def isBlank (c : Char) : Bool :=
  let code := c.toNat
  (0x09 ≤ code && code ≤ 0x0d) || code == 0x20 || code == 0x85 || code == 0xa0 || code == 0x1680
    || (0x2000 ≤ code && code ≤ 0x200a) || code == 0x2028 || code == 0x2029 || code == 0x202f
    || code == 0x205f || code == 0x3000

/-- A text without the characters of a class at its end. -/
def dropEnd (drop : Char → Bool) (text : List Char) : List Char :=
  (text.reverse.dropWhile drop).reverse

/-- A text without white space at either end. -/
def trimBlank (text : List Char) : List Char := dropEnd isBlank (text.dropWhile isBlank)

/-- A line without the characters that end it. -/
def chomp (line : List Char) : List Char := dropEnd (fun c => c == '\r' || c == '\n') line

end TagWire
