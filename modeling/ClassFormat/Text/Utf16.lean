/-!
# UTF-16 units

Text in a class file is a sequence of 16-bit units. A character beyond the first 65536 takes a high
surrogate and a low one; surrogates that do not pair up that way stand for no character.
`ofString` and `toString?` go between strings and units, the latter only for paired surrogates.
-/

namespace ClassFormat.Text.Utf16

/-- First half of a surrogate pair. -/
def isHigh (unit : UInt16) : Bool := 0xD800 ≤ unit && unit ≤ 0xDBFF

/-- Second half of a surrogate pair. -/
def isLow (unit : UInt16) : Bool := 0xDC00 ≤ unit && unit ≤ 0xDFFF

/-- Units of one character. -/
def ofChar (c : Char) : List UInt16 :=
  if c.toNat < 0x10000 then [UInt16.ofNat c.toNat]
  else
    [UInt16.ofNat (0xD800 + (c.toNat - 0x10000) / 0x400),
     UInt16.ofNat (0xDC00 + (c.toNat - 0x10000) % 0x400)]

/-- The character of a high and a low surrogate. -/
def pair (high low : UInt16) : Char :=
  Char.ofNat (0x10000 + (high.toNat - 0xD800) * 0x400 + (low.toNat - 0xDC00))

/-- Units of a string. -/
def ofString (text : String) : List UInt16 := text.toList.flatMap ofChar

/-- The characters of the units, put behind those already found (last one first). -/
def charsFrom (found : List Char) : List UInt16 → Option (List Char)
  | [] => some found.reverse
  | unit :: rest =>
    if isHigh unit then
      match rest with
      | [] => none
      | low :: rest => if isLow low then charsFrom (pair unit low :: found) rest else none
    else if isLow unit then none
    else charsFrom (Char.ofNat unit.toNat :: found) rest

/-- The string of the units, if every surrogate is half of a pair. -/
def toString? (units : List UInt16) : Option String :=
  (charsFrom [] units).map String.ofList

end ClassFormat.Text.Utf16
