import TagWire.Text.Hex
import TagWire.Text.Unprintable

/-!
Text between double quotes. Whatever could break a line, end the quotation or not be seen is
written as an escape, so a quoted text stays on one line.
-/

namespace TagWire.Quoted

/-- A character inside quotes. -/
def escape (c : Char) : String :=
  if c = '\x00' then "\\0"
  else if c = '\t' then "\\t"
  else if c = '\r' then "\\r"
  else if c = '\n' then "\\n"
  else if c = '"' then "\\\""
  else if c = '\\' then "\\\\"
  else if Unprintable.contains c then "\\u\x7b" ++ Hex.number c.toNat ++ "\x7d"
  else String.singleton c

/-- A text in quotes. -/
def text (s : String) : String := "\"" ++ String.join (s.toList.map escape) ++ "\""

/-- A byte inside quotes: as an ASCII character if that prints, else by its number. -/
def escapeByte (b : UInt8) : String :=
  let c := Char.ofNat b.toNat
  if c = '\t' then "\\t"
  else if c = '\r' then "\\r"
  else if c = '\n' then "\\n"
  else if c = '\'' then "\\'"
  else if c = '"' then "\\\""
  else if c = '\\' then "\\\\"
  else if 0x20 ≤ b && b < 0x7f then String.singleton c
  else "\\x" ++ Hex.byte b

/-- Bytes in quotes. -/
def bytes (content : Bytes) : String := "\"" ++ String.join (content.map escapeByte) ++ "\""

/-- A list of texts in quotes, between braces. -/
def set (texts : List String) : String :=
  "\x7b" ++ ", ".intercalate (texts.map text) ++ "\x7d"

end TagWire.Quoted
