/-!
# Hexadecimal text

Numbers in messages have a least number of digits after `0x`; bytes are written with two digits
each. Written digits are lower case, and `decode` takes upper case ones too.
-/

namespace ClassFormat.Text.Hexadecimal

/-- Hexadecimal digits of a number, without leading zeros. -/
def digits (n : Nat) : List Char := Nat.toDigits 16 n

/-- At least `width` hexadecimal digits after `0x`. -/
def padded (width n : Nat) : String :=
  "0x" ++ String.ofList (List.replicate (width - (digits n).length) '0' ++ digits n)

/-! ## Bytes -/

/-- Two digits per byte. -/
def encode (bytes : List UInt8) : String :=
  bytes.foldl
    (fun text byte =>
      (text.push (Nat.digitChar (byte.toNat / 16))).push (Nat.digitChar (byte.toNat % 16)))
    ""

/-- Value of a digit. -/
def digitValue? (digit : Char) : Option Nat :=
  if '0' ≤ digit ∧ digit ≤ '9' then some (digit.toNat - '0'.toNat)
  else if 'a' ≤ digit ∧ digit ≤ 'f' then some (digit.toNat - 'a'.toNat + 10)
  else if 'A' ≤ digit ∧ digit ≤ 'F' then some (digit.toNat - 'A'.toNat + 10)
  else none

/-- The bytes of the digits, put behind those already found (last one first). -/
def decodeFrom (found : List UInt8) : List Char → Option (List UInt8)
  | [] => some found.reverse
  | [_] => none
  | high :: low :: rest =>
    match digitValue? high, digitValue? low with
    | some high, some low => decodeFrom (UInt8.ofNat (16 * high + low) :: found) rest
    | _, _ => none

/-- The bytes written with two digits each, if the text is one of bytes. -/
def decode (text : String) : Option (List UInt8) := decodeFrom [] text.toList

end ClassFormat.Text.Hexadecimal
