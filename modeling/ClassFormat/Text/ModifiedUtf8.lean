import ClassFormat.Bytes
import ClassFormat.Text.Utf16
/-!
# Modified UTF-8

The byte form of text in a class file. It differs from UTF-8 in two ways: the zero unit takes two
bytes, so that no zero byte ever occurs, and a surrogate takes three bytes of its own, so that a
character beyond the first 65536 takes six. Working on UTF-16 units makes the second point
automatic: each unit has exactly one form, of one, two or three bytes.
-/

namespace ClassFormat.Text.ModifiedUtf8

/-- The one form of a unit. -/
def unitBytes (unit : UInt16) : Bytes :=
  let n := unit.toNat
  if 0x01 ≤ n ∧ n ≤ 0x7F then [UInt8.ofNat n]
  else if n ≤ 0x7FF then [UInt8.ofNat (0xC0 + n / 64), UInt8.ofNat (0x80 + n % 64)]
  else
    [UInt8.ofNat (0xE0 + n / 4096), UInt8.ofNat (0x80 + n / 64 % 64), UInt8.ofNat (0x80 + n % 64)]

/-- The bytes of any units, surrogates paired or not. -/
def encode (units : List UInt16) : Bytes := units.flatMap unitBytes

/-- Bytes after the first of a form start with the bits `10`. -/
def isContinuation (byte : UInt8) : Bool := 0x80 ≤ byte && byte ≤ 0xBF

/-- The unit of a two-byte form; only the zero unit may be one that a shorter form could hold. -/
def unitOfTwo (first second : UInt8) : Option UInt16 :=
  let n := first.toNat % 32 * 64 + second.toNat % 64
  if isContinuation second ∧ (n = 0 ∨ 0x80 ≤ n) then some (UInt16.ofNat n) else none

/-- The unit of a three-byte form, which no shorter form may hold. -/
def unitOfThree (first second third : UInt8) : Option UInt16 :=
  let n := first.toNat % 16 * 4096 + second.toNat % 64 * 64 + third.toNat % 64
  if isContinuation second ∧ isContinuation third ∧ 0x800 ≤ n then some (UInt16.ofNat n) else none

/-- The units of the bytes, put behind those already found (last one first). -/
def unitsFrom (found : List UInt16) : Bytes → Option (List UInt16)
  | [] => some found.reverse
  | first :: rest =>
    if 0x01 ≤ first ∧ first ≤ 0x7F then unitsFrom (first.toUInt16 :: found) rest
    else if 0xC0 ≤ first ∧ first ≤ 0xDF then
      match rest with
      | second :: rest =>
        match unitOfTwo first second with
        | some unit => unitsFrom (unit :: found) rest
        | none => none
      | [] => none
    else if 0xE0 ≤ first ∧ first ≤ 0xEF then
      match rest with
      | second :: third :: rest =>
        match unitOfThree first second third with
        | some unit => unitsFrom (unit :: found) rest
        | none => none
      | _ => none
    else none

/-- The units whose bytes these are, if there are any. -/
def decode (bytes : Bytes) : Option (List UInt16) := unitsFrom [] bytes

/-- The bytes of a string. -/
def encodeString (text : String) : Bytes := encode (Utf16.ofString text)

/-- The string whose bytes these are, if there is one. -/
def decodeString (bytes : Bytes) : Option String := decode bytes >>= Utf16.toString?

end ClassFormat.Text.ModifiedUtf8
