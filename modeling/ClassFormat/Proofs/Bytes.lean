import ClassFormat.Bytes
import Mathlib.Algebra.GroupWithZero.Nat
/-!
# Laws of big-endian numbers

One pair of laws covers all the widths of the format:

* `BigEndian.decode_encode`: what is read back is the number modulo `256 ^ width`;
* `BigEndian.encode_decode`: every byte list is the writing of the number it stands for.
-/

namespace ClassFormat

namespace BigEndian

/-- The first byte is the digit of the highest power. -/
theorem encode_succ (width n : Nat) :
    encode (width + 1) n = UInt8.ofNat (n / 256 ^ width) :: encode width n := by
  rw [encode, Nat.shiftRight_eq_div_pow, Nat.pow_mul]

/-- A number already read goes in front of the digits that follow. -/
theorem foldl_eq (bytes : Bytes) (n : Nat) :
    bytes.foldl (fun n byte => 256 * n + byte.toNat) n
      = n * 256 ^ bytes.length + decode bytes := by
  unfold decode
  induction bytes generalizing n with
  | nil => simp
  | cons byte rest ih =>
    simp only [List.foldl_cons, List.length_cons]
    rw [ih, ih (256 * 0 + byte.toNat), Nat.pow_succ]
    have h : 256 * n * 256 ^ rest.length = n * (256 ^ rest.length * 256) := by
      rw [Nat.mul_comm 256 n, Nat.mul_assoc, Nat.mul_comm 256]
    simp only [Nat.add_mul, h, Nat.mul_zero, Nat.zero_add]
    omega

/-- The first byte is the most significant one. -/
theorem decode_cons (byte : UInt8) (rest : Bytes) :
    decode (byte :: rest) = byte.toNat * 256 ^ rest.length + decode rest := by
  have h := foldl_eq rest (256 * 0 + byte.toNat)
  simpa [decode] using h

/-- A number of so many bytes is below that power of 256. -/
theorem decode_lt (bytes : Bytes) : decode bytes < 256 ^ bytes.length := by
  induction bytes with
  | nil => decide
  | cons byte rest ih =>
    rw [decode_cons, List.length_cons, Nat.pow_succ]
    have h : byte.toNat ≤ 255 := Nat.le_of_lt_succ byte.toNat_lt
    have h2 := Nat.mul_le_mul_right (256 ^ rest.length) h
    omega

/-- Reading back what was written gives the number modulo the range of the width. -/
theorem decode_encode (width n : Nat) : decode (encode width n) = n % 256 ^ width := by
  induction width with
  | zero => simp [encode, Nat.mod_one]
  | succ width ih =>
    rw [encode_succ, decode_cons, length_encode, ih, UInt8.toNat_ofNat']
    change n / 256 ^ width % 256 * 256 ^ width + n % 256 ^ width = n % 256 ^ (width + 1)
    rw [Nat.pow_succ, Nat.mod_mul, Nat.add_comm, Nat.mul_comm (256 ^ width)]

/-- A number that fits the width is read back as it was. -/
theorem decode_encode_of_lt {width n : Nat} (h : n < 256 ^ width) :
    decode (encode width n) = n := by
  rw [decode_encode, Nat.mod_eq_of_lt h]

/-- The digits of a number do not change when whole multiples of the range are added. -/
theorem encode_add_mul (width n k : Nat) :
    encode width (k * 256 ^ width + n) = encode width n := by
  induction width generalizing k with
  | zero => rfl
  | succ width ih =>
    have hpos : 0 < 256 ^ width := Nat.pow_pos (by decide)
    have hsplit : k * 256 ^ (width + 1) + n = (k * 256) * 256 ^ width + n := by
      rw [Nat.pow_succ, Nat.mul_comm (256 ^ width) 256, Nat.mul_assoc]
    rw [encode_succ, encode_succ, hsplit, ih (k * 256)]
    congr 1
    apply UInt8.toNat_inj.mp
    rw [UInt8.toNat_ofNat', UInt8.toNat_ofNat', Nat.add_comm, Nat.add_mul_div_right _ _ hpos]
    exact Nat.add_mul_mod_self_right _ _ _

/-- Every byte list is the writing of the number it stands for. -/
theorem encode_decode (bytes : Bytes) : encode bytes.length (decode bytes) = bytes := by
  induction bytes with
  | nil => rfl
  | cons byte rest ih =>
    have hpos : 0 < 256 ^ rest.length := Nat.pow_pos (by decide)
    rw [List.length_cons, encode_succ, decode_cons, encode_add_mul, ih]
    congr 1
    apply UInt8.toNat_inj.mp
    rw [UInt8.toNat_ofNat', Nat.add_comm, Nat.add_mul_div_right _ _ hpos,
      Nat.div_eq_of_lt (decode_lt rest), Nat.zero_add]
    exact Nat.mod_eq_of_lt byte.toNat_lt

end BigEndian

end ClassFormat
