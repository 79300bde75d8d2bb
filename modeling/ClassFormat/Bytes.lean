/-!
# Bytes and big-endian numbers

A class file is a list of bytes, and every number in it stands most significant byte first.
`BigEndian.encode` writes a number in a given width and `BigEndian.decode` reads bytes of any width,
so one pair of functions serves all the widths of the format.
-/

namespace ClassFormat

/-- Bytes of a file, first byte first. -/
abbrev Bytes := List UInt8

namespace BigEndian

/-- The last `width` base-256 digits of a number, most significant first. -/
def encode : Nat → Nat → Bytes
  | 0, _ => []
  | width + 1, n => UInt8.ofNat (n >>> (8 * width)) :: encode width n

/-- The number whose base-256 digits are the given bytes. -/
def decode (bytes : Bytes) : Nat :=
  bytes.foldl (fun n byte => 256 * n + byte.toNat) 0

@[simp] theorem length_encode (width n : Nat) : (encode width n).length = width := by
  induction width with
  | zero => rfl
  | succ width ih => simp [encode, ih]

@[simp] theorem decode_nil : decode [] = 0 := rfl

/-! ## The widths of the format -/

/-- One unsigned byte. -/
def u8 (n : UInt8) : Bytes := [n]

/-- Two bytes, unsigned. -/
def u16 (n : UInt16) : Bytes := encode 2 n.toNat

/-- Four bytes, unsigned. -/
def u32 (n : UInt32) : Bytes := encode 4 n.toNat

/-- Eight bytes, unsigned. -/
def u64 (n : UInt64) : Bytes := encode 8 n.toNat

/-- One byte in two's complement. -/
def i8 (n : Int8) : Bytes := u8 n.toUInt8

/-- Two bytes in two's complement. -/
def i16 (n : Int16) : Bytes := u16 n.toUInt16

/-- Four bytes in two's complement. -/
def i32 (n : Int32) : Bytes := u32 n.toUInt32

/-- Eight bytes in two's complement. -/
def i64 (n : Int64) : Bytes := u64 n.toUInt64

@[simp] theorem length_u8 (n : UInt8) : (u8 n).length = 1 := rfl
@[simp] theorem length_u16 (n : UInt16) : (u16 n).length = 2 := length_encode ..
@[simp] theorem length_u32 (n : UInt32) : (u32 n).length = 4 := length_encode ..
@[simp] theorem length_u64 (n : UInt64) : (u64 n).length = 8 := length_encode ..
@[simp] theorem length_i8 (n : Int8) : (i8 n).length = 1 := rfl
@[simp] theorem length_i16 (n : Int16) : (i16 n).length = 2 := length_encode ..
@[simp] theorem length_i32 (n : Int32) : (i32 n).length = 4 := length_encode ..

end BigEndian

end ClassFormat
