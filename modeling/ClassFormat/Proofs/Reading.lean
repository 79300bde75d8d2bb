import ClassFormat.Proofs.Bytes
import ClassFormat.Reader
import Mathlib.Tactic.Common
/-!
# What readers take off their input

`reader.Reads input value rest notices` says that a reader succeeds: it takes `value` off the front
of `input`, leaves `rest`, and leaves `notices` on the way. For each way of building a reader there
is a law that says exactly when it succeeds, so a success is taken apart into the successes of the
parts, and put together from them, by the same laws. For numbers and blocks the law names the bytes
that were taken: `Reader.reads_u16` says that they are the two bytes that `BigEndian.u16` writes.
-/

namespace ClassFormat

namespace BigEndian

variable {n : Nat}

theorem decode_u16 (n : UInt16) : decode (u16 n) = n.toNat :=
  decode_encode_of_lt n.toNat_lt

/-- A number below the range of two bytes is written as those two bytes. -/
theorem encode_two_of_lt (h : n < 2 ^ 16) : encode 2 n = u16 (UInt16.ofNat n) := by
  rw [u16, UInt16.toNat_ofNat_of_lt' h]

theorem encode_four_of_lt (h : n < 2 ^ 32) : encode 4 n = u32 (UInt32.ofNat n) := by
  rw [u32, UInt32.toNat_ofNat_of_lt' h]

/-- Two bytes determine the number they write. -/
theorem u16_injective {n m : UInt16} (h : u16 n = u16 m) : n = m := by
  have hdecode := congrArg decode h
  rw [decode_u16, decode_u16] at hdecode
  exact UInt16.toNat_inj.mp hdecode

end BigEndian

namespace Reader

variable {α β σ : Type} {input rest : Bytes} {notices : List Notice}

/-- A reader takes a value off the front of an input and leaves the rest. -/
def Reads (reader : Reader α) (input : Bytes) (value : α) (rest : Bytes)
    (notices : List Notice) : Prop :=
  reader input = ⟨.ok (value, rest), notices⟩

/-! ## Ways of building a reader -/

theorem reads_pure {value : α} {found : α} :
    (pure value : Reader α).Reads input found rest notices
      ↔ found = value ∧ rest = input ∧ notices = [] := by
  simp [Reads, eq_comm, and_assoc]

theorem reads_fail {cause : Error} {found : α} :
    ¬ (fail cause : Reader α).Reads input found rest notices := by
  simp [Reads]

theorem reads_note {notice : Notice} {found : Unit} :
    (note notice).Reads input found rest notices ↔ rest = input ∧ notices = [notice] := by
  simp [Reads, eq_comm]

theorem reads_ofExcept {result : Except Error α} {found : α} :
    (ofExcept result).Reads input found rest notices
      ↔ result = .ok found ∧ rest = input ∧ notices = [] := by
  cases result with
  | ok value => simp [ofExcept, Reads, Reader.pure, eq_comm, and_assoc]
  | error cause => simp [ofExcept, Reads]

/-- Reading in two steps splits the input and the notices between them. -/
theorem reads_bind {reader : Reader α} {next : α → Reader β} {found : β} :
    (reader >>= next).Reads input found rest notices
      ↔ ∃ first middle before behind, reader.Reads input first middle before
          ∧ (next first).Reads middle found rest behind ∧ notices = before ++ behind := by
  rcases reading_cases (reader input) with ⟨first, middle, h⟩ | ⟨cause, h⟩
  · constructor
    · intro hreads
      rw [Reads, run_bind_ok h] at hreads
      refine ⟨first, middle, _, (next first middle).notices, h, ?_, ?_⟩
      · rw [Reads, ← (Reading.mk.inj hreads).1]
      · exact ((Reading.mk.inj hreads).2).symm
    · rintro ⟨value, behindFirst, before, behind, hfirst, hnext, rfl⟩
      rw [Reads, run_bind_ok hfirst, hnext]
  · constructor
    · intro hreads
      rw [Reads, run_bind_error h] at hreads
      simp at hreads
    · rintro ⟨value, behindFirst, before, behind, hfirst, -⟩
      rw [Reads, h] at hfirst
      simp at hfirst

/-- What comes next counts only for what can be read. -/
theorem bind_congr_of_reads {reader : Reader α} {next other : α → Reader β}
    (h : ∀ {input value rest notices}, reader.Reads input value rest notices →
      next value = other value) : reader >>= next = reader >>= other := by
  funext input
  rcases reading_cases (reader input) with ⟨value, rest, hreads⟩ | ⟨cause, hfails⟩
  · rw [run_bind_ok hreads, run_bind_ok hreads, h hreads]
  · rw [run_bind_error hfails, run_bind_error hfails]

theorem reads_map {reader : Reader α} {f : α → β} {found : β} :
    (f <$> reader).Reads input found rest notices
      ↔ ∃ value, reader.Reads input value rest notices ∧ found = f value := by
  rw [← bind_pure_comp, reads_bind]
  constructor
  · rintro ⟨first, middle, before, behind, hfirst, hnext, rfl⟩
    obtain ⟨rfl, rfl, rfl⟩ := reads_pure.mp hnext
    exact ⟨first, by simpa using hfirst, rfl⟩
  · rintro ⟨value, hvalue, rfl⟩
    exact ⟨value, rest, notices, [], hvalue, reads_pure.mpr ⟨rfl, rfl, rfl⟩, by simp⟩

/-! ## Blocks and numbers -/

/-- Taking bytes gives the first ones of the input, as many as are asked for. -/
theorem reads_take {wanted : Shortfall} {length : Nat} {found : Bytes} :
    (take wanted length).Reads input found rest notices
      ↔ input = found ++ rest ∧ found.length = length ∧ notices = [] := by
  unfold Reads take
  by_cases h : (input.take length).length = length
  · simp only [h, if_true, Reading.mk.injEq, Except.ok.injEq, Prod.mk.injEq, eq_comm (a := [])]
    constructor
    · rintro ⟨⟨rfl, rfl⟩, hnotices⟩
      exact ⟨(List.take_append_drop length input).symm, h, hnotices⟩
    · rintro ⟨rfl, rfl, hnotices⟩
      simp [hnotices]
  · simp only [h, if_false, Reading.mk.injEq, reduceCtorEq, false_and, false_iff]
    rintro ⟨rfl, rfl, -⟩
    simp at h

theorem reads_block {length : Nat} {found : Bytes} :
    (block length).Reads input found rest notices
      ↔ input = found ++ rest ∧ found.length = length ∧ notices = [] :=
  reads_take

/-- A number of some width is read from its own encoding and from nothing else. -/
theorem reads_number {width n : Nat} :
    (number width).Reads input n rest notices
      ↔ input = BigEndian.encode width n ++ rest ∧ n < 256 ^ width ∧ notices = [] := by
  rw [number, reads_map]
  constructor
  · rintro ⟨digits, hdigits, rfl⟩
    obtain ⟨rfl, rfl, rfl⟩ := reads_take.mp hdigits
    rw [BigEndian.encode_decode]
    exact ⟨rfl, BigEndian.decode_lt digits, rfl⟩
  · rintro ⟨rfl, hlt, rfl⟩
    refine ⟨BigEndian.encode width n, ?_, (BigEndian.decode_encode_of_lt hlt).symm⟩
    exact reads_take.mpr ⟨rfl, BigEndian.length_encode .., rfl⟩

theorem reads_u8 {n : UInt8} :
    u8.Reads input n rest notices ↔ input = BigEndian.u8 n ++ rest ∧ notices = [] := by
  rw [u8, reads_map]
  constructor
  · rintro ⟨value, hvalue, rfl⟩
    obtain ⟨rfl, hlt, rfl⟩ := reads_number.mp hvalue
    simp [BigEndian.encode, BigEndian.u8]
  · rintro ⟨rfl, rfl⟩
    refine ⟨n.toNat, reads_number.mpr ⟨?_, n.toNat_lt, rfl⟩, by simp⟩
    simp [BigEndian.encode, BigEndian.u8]

theorem reads_u16 {n : UInt16} :
    u16.Reads input n rest notices ↔ input = BigEndian.u16 n ++ rest ∧ notices = [] := by
  rw [u16, reads_map]
  constructor
  · rintro ⟨value, hvalue, rfl⟩
    obtain ⟨rfl, hlt, rfl⟩ := reads_number.mp hvalue
    exact ⟨by rw [BigEndian.encode_two_of_lt hlt], rfl⟩
  · rintro ⟨rfl, rfl⟩
    exact ⟨n.toNat, reads_number.mpr ⟨rfl, n.toNat_lt, rfl⟩, by simp⟩

theorem reads_u32 {n : UInt32} :
    u32.Reads input n rest notices ↔ input = BigEndian.u32 n ++ rest ∧ notices = [] := by
  rw [u32, reads_map]
  constructor
  · rintro ⟨value, hvalue, rfl⟩
    obtain ⟨rfl, hlt, rfl⟩ := reads_number.mp hvalue
    exact ⟨by rw [BigEndian.encode_four_of_lt hlt], rfl⟩
  · rintro ⟨rfl, rfl⟩
    exact ⟨n.toNat, reads_number.mpr ⟨rfl, n.toNat_lt, rfl⟩, by simp⟩

theorem reads_u64 {n : UInt64} :
    u64.Reads input n rest notices ↔ input = BigEndian.u64 n ++ rest ∧ notices = [] := by
  rw [u64, reads_map]
  constructor
  · rintro ⟨value, hvalue, rfl⟩
    obtain ⟨rfl, hlt, rfl⟩ := reads_number.mp hvalue
    have hvalue : (UInt64.ofNat value).toNat = value := UInt64.toNat_ofNat_of_lt' hlt
    exact ⟨by rw [BigEndian.u64, hvalue], rfl⟩
  · rintro ⟨rfl, rfl⟩
    exact ⟨n.toNat, reads_number.mpr ⟨rfl, n.toNat_lt, rfl⟩, by simp⟩

theorem reads_i8 {n : Int8} :
    i8.Reads input n rest notices ↔ input = BigEndian.i8 n ++ rest ∧ notices = [] := by
  rw [i8, reads_map]
  constructor
  · rintro ⟨value, hvalue, rfl⟩
    obtain ⟨rfl, rfl⟩ := reads_u8.mp hvalue
    exact ⟨by rw [BigEndian.i8, UInt8.toUInt8_toInt8], rfl⟩
  · rintro ⟨rfl, rfl⟩
    exact ⟨n.toUInt8, reads_u8.mpr ⟨rfl, rfl⟩, by simp⟩

theorem reads_i16 {n : Int16} :
    i16.Reads input n rest notices ↔ input = BigEndian.i16 n ++ rest ∧ notices = [] := by
  rw [i16, reads_map]
  constructor
  · rintro ⟨value, hvalue, rfl⟩
    obtain ⟨rfl, rfl⟩ := reads_u16.mp hvalue
    exact ⟨by rw [BigEndian.i16, UInt16.toUInt16_toInt16], rfl⟩
  · rintro ⟨rfl, rfl⟩
    exact ⟨n.toUInt16, reads_u16.mpr ⟨rfl, rfl⟩, by simp⟩

theorem reads_i32 {n : Int32} :
    i32.Reads input n rest notices ↔ input = BigEndian.i32 n ++ rest ∧ notices = [] := by
  rw [i32, reads_map]
  constructor
  · rintro ⟨value, hvalue, rfl⟩
    obtain ⟨rfl, rfl⟩ := reads_u32.mp hvalue
    exact ⟨by rw [BigEndian.i32, UInt32.toUInt32_toInt32], rfl⟩
  · rintro ⟨rfl, rfl⟩
    exact ⟨n.toUInt32, reads_u32.mpr ⟨rfl, rfl⟩, by simp⟩

theorem reads_i64 {n : Int64} :
    i64.Reads input n rest notices ↔ input = BigEndian.i64 n ++ rest ∧ notices = [] := by
  rw [i64, reads_map]
  constructor
  · rintro ⟨value, hvalue, rfl⟩
    obtain ⟨rfl, rfl⟩ := reads_u64.mp hvalue
    exact ⟨by rw [BigEndian.i64, UInt64.toUInt64_toInt64], rfl⟩
  · rintro ⟨rfl, rfl⟩
    exact ⟨n.toUInt64, reads_u64.mpr ⟨rfl, rfl⟩, by simp⟩

/-! ## Repetition -/

/-- One round of a loop, as long as it has a bound left. -/
theorem reads_loop_succ {more : σ → Bool} {step : σ → Reader σ} {bound : Nat} {state final : σ} :
    (loop more step (bound + 1) state).Reads input final rest notices
      ↔ if more state then (step state >>= loop more step bound).Reads input final rest notices
        else final = state ∧ rest = input ∧ notices = [] := by
  rw [loop_succ]
  by_cases h : more state
  · simp only [h, if_true]
  · simp only [h, Bool.false_eq_true, if_false, reads_pure]

theorem reads_loop_zero {more : σ → Bool} {step : σ → Reader σ} {state final : σ} :
    (loop more step 0 state).Reads input final rest notices
      ↔ final = state ∧ rest = input ∧ notices = [] := by
  rw [loop_zero, reads_pure]

theorem reads_many_zero {reader : Reader α} {found : List α} :
    (many 0 reader).Reads input found rest notices
      ↔ found = [] ∧ rest = input ∧ notices = [] := by
  rw [many_zero, reads_pure]

/-- A list is read as its first element and the list of the others. -/
theorem reads_many_succ {reader : Reader α} {count : Nat} {found : List α} :
    (many (count + 1) reader).Reads input found rest notices
      ↔ ∃ first others middle before behind, found = first :: others
          ∧ reader.Reads input first middle before
          ∧ (many count reader).Reads middle others rest behind
          ∧ notices = before ++ behind := by
  rw [many_succ, reads_bind]
  constructor
  · rintro ⟨first, middle, before, behind, hfirst, hmany, rfl⟩
    obtain ⟨others, hothers, rfl⟩ := reads_map.mp hmany
    exact ⟨first, others, middle, before, behind, rfl, hfirst, hothers, rfl⟩
  · rintro ⟨first, others, middle, before, behind, rfl, hfirst, hothers, rfl⟩
    exact ⟨first, middle, before, behind, hfirst, reads_map.mpr ⟨others, hothers, rfl⟩, rfl⟩

/-- Values of one length each take that many times as many bytes. -/
theorem length_of_reads_many {reader : Reader α} {length : Nat}
    (h : ∀ {input value rest notices}, reader.Reads input value rest notices →
      input.length = length + rest.length) {count : Nat} {found : List α}
    (hreads : (many count reader).Reads input found rest notices) :
    input.length = length * count + rest.length := by
  induction count generalizing input found notices with
  | zero =>
    rw [(reads_many_zero.mp hreads).2.1, Nat.mul_zero, Nat.zero_add]
  | succ count ih =>
    obtain ⟨first, others, middle, before, behind, -, hfirst, hothers, -⟩ :=
      reads_many_succ.mp hreads
    rw [h hfirst, ih hothers, Nat.mul_succ]
    omega

/-- What holds of whatever a reader takes holds of all values that it takes. -/
theorem forall_of_reads_many {reader : Reader α} {P : α → Prop}
    (h : ∀ {input value rest notices}, reader.Reads input value rest notices → P value)
    {count : Nat} {found : List α} (hreads : (many count reader).Reads input found rest notices) :
    ∀ value ∈ found, P value := by
  induction count generalizing input found notices with
  | zero =>
    rw [(reads_many_zero.mp hreads).1]
    exact fun _ hvalue => nomatch hvalue
  | succ count ih =>
    obtain ⟨first, others, middle, before, behind, rfl, hfirst, hothers, -⟩ :=
      reads_many_succ.mp hreads
    exact List.forall_mem_cons.mpr ⟨h hfirst, ih hothers⟩

/-! ## Readers with one writing for each value -/

section Exact

variable {reader : Reader α} {write : α → Bytes}

/-- A value that is read exactly as it is written stands in front of what is read behind it. -/
theorem reads_bind_exact (h : ∀ {input value rest notices},
      reader.Reads input value rest notices ↔ input = write value ++ rest ∧ notices = [])
    {next : α → Reader β} {found : β} :
    (reader >>= next).Reads input found rest notices
      ↔ ∃ value middle, input = write value ++ middle
        ∧ (next value).Reads middle found rest notices := by
  rw [reads_bind]
  constructor
  · rintro ⟨value, middle, before, behind, hvalue, hnext, rfl⟩
    obtain ⟨hinput, rfl⟩ := h.mp hvalue
    exact ⟨value, middle, hinput, hnext⟩
  · rintro ⟨value, middle, hinput, hnext⟩
    exact ⟨value, middle, [], notices, h.mpr ⟨hinput, rfl⟩, hnext, rfl⟩

theorem reads_map_exact (h : ∀ {input value rest notices},
      reader.Reads input value rest notices ↔ input = write value ++ rest ∧ notices = [])
    {f : α → β} {found : β} :
    (f <$> reader).Reads input found rest notices
      ↔ ∃ value, found = f value ∧ input = write value ++ rest ∧ notices = [] := by
  rw [reads_map]
  refine exists_congr fun value => ?_
  rw [h]
  exact and_comm

/-- A table of values that are read exactly as they are written is their writings in a row. -/
theorem reads_many_exact (h : ∀ {input value rest notices},
      reader.Reads input value rest notices ↔ input = write value ++ rest ∧ notices = [])
    {count : Nat} {found : List α} :
    (many count reader).Reads input found rest notices
      ↔ found.length = count ∧ input = found.flatMap write ++ rest ∧ notices = [] := by
  induction count generalizing input found notices with
  | zero =>
    rw [reads_many_zero, List.length_eq_zero_iff]
    constructor
    · rintro ⟨rfl, rfl, rfl⟩
      exact ⟨rfl, rfl, rfl⟩
    · rintro ⟨rfl, rfl, rfl⟩
      exact ⟨rfl, rfl, rfl⟩
  | succ count ih =>
    rw [reads_many_succ]
    constructor
    · rintro ⟨first, others, middle, before, behind, rfl, hfirst, hothers, rfl⟩
      obtain ⟨rfl, rfl⟩ := h.mp hfirst
      obtain ⟨rfl, rfl, rfl⟩ := ih.mp hothers
      exact ⟨rfl, by simp, rfl⟩
    · rintro ⟨hlength, rfl, rfl⟩
      obtain ⟨first, others, rfl⟩ := List.exists_cons_of_length_eq_add_one hlength
      refine ⟨first, others, others.flatMap write ++ rest, [], [], rfl, ?_, ?_, rfl⟩
      · exact h.mpr ⟨by simp, rfl⟩
      · exact ih.mpr ⟨Nat.succ_inj.mp hlength, rfl, rfl⟩

end Exact

/-- A block stands in front of what is read behind it. -/
theorem reads_bind_block {length : Nat} {next : Bytes → Reader β} {found : β} :
    (block length >>= next).Reads input found rest notices
      ↔ ∃ front middle, front.length = length ∧ input = front ++ middle
        ∧ (next front).Reads middle found rest notices := by
  rw [reads_bind]
  constructor
  · rintro ⟨front, middle, before, behind, hfront, hnext, rfl⟩
    obtain ⟨hinput, hlength, rfl⟩ := reads_block.mp hfront
    exact ⟨front, middle, hlength, hinput, hnext⟩
  · rintro ⟨front, middle, hlength, hinput, hnext⟩
    exact ⟨front, middle, [], notices, reads_block.mpr ⟨hinput, hlength, rfl⟩, hnext, rfl⟩

end Reader

end ClassFormat
