import ClassFormat.Text.Hexadecimal
import ClassFormat.Text.Shown
/-!
# Quoted text in messages

Text in a message stands between two delimiters. The delimiter and the backslash are escaped by a
backslash, four control characters have short forms, and every other character that is not shown
as it is becomes its code point in hexadecimal.
-/

namespace ClassFormat.Text

/-- One character between delimiters. -/
def escaped (delimiter c : Char) : List Char :=
  if c = delimiter ∨ c = '\\' then ['\\', c]
  else if c = '\x00' then ['\\', '0']
  else if c = '\t' then ['\\', 't']
  else if c = '\n' then ['\\', 'n']
  else if c = '\r' then ['\\', 'r']
  else if isShown c then [c]
  else ['\\', 'u', '\x7b'] ++ Hexadecimal.digits c.toNat ++ ['\x7d']

/-- Text between two delimiters. -/
def quoted (delimiter : Char) (text : List Char) : String :=
  String.ofList (delimiter :: text.flatMap (escaped delimiter) ++ [delimiter])

/-- A string in double quotes. -/
def quotedString (text : String) : String := quoted '"' text.toList

/-- A character in single quotes. -/
def quotedChar (c : Char) : String := quoted '\'' [c]

end ClassFormat.Text
