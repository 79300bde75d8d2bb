import ClassFormat.Proofs.Instruction.Grammar
import ClassFormat.Proofs.Writing
/-!
# Decoding is parsing by the grammar

Reading an instruction succeeds on exactly the bytes that the grammar of code gives to the
instruction, and answers that instruction (`Instruction.reads_read_iff`). Soundness and completeness
are two walks through the forms of the operands; the padding of a switch is the one place where the
address comes in.

`disassemble_iff_row` follows by induction along the walk. Since an instruction takes exactly its
own bytes, the next one starts where the grammar has it, at an address that all padding in front of
it has moved. Addresses and lengths are kept in 32 bits, of which nothing is lost as long as the
bytes up to the end of the code can be counted in them (`Walk.Addressable`).
-/

namespace ClassFormat

/-! ## Numbers in narrow fields -/

theorem toInt16_toInt8_of_range {n : Int16} (hge : -2 ^ 7 ≤ n.toInt) (hlt : n.toInt < 2 ^ 7) :
    n.toInt8.toInt16 = n := by
  apply Int16.toInt_inj.mp
  rw [Int8.toInt_toInt16, Int16.toInt_toInt8, Int.bmod_eq_of_le (by omega) (by omega)]

theorem toInt32_toInt16_of_range {n : Int32} (hge : -2 ^ 15 ≤ n.toInt)
    (hlt : n.toInt < 2 ^ 15) : n.toInt16.toInt32 = n := by
  apply Int32.toInt_inj.mp
  rw [Int16.toInt_toInt32, Int32.toInt_toInt16, Int.bmod_eq_of_le (by omega) (by omega)]

theorem toUInt16_toUInt8_of_lt {n : UInt16} (h : n.toNat < 2 ^ 8) :
    n.toUInt8.toUInt16 = n := by
  apply UInt16.toNat_inj.mp
  rw [UInt8.toNat_toUInt16, UInt16.toNat_toUInt8, Nat.mod_eq_of_lt h]

theorem switchPadding_eq (address : UInt32) :
    switchPadding address = ((-((address.toNat : Int) + 1)) % 4).toNat := by
  unfold switchPadding
  omega

/-! ## Operands -/

variable {pool : Pool} {address : UInt32} {input rest : Bytes} {notices : List Notice}

/-- Renaming the errors of a reader changes nothing about what it reads. -/
theorem Reader.reads_orTruncated {α : Type} {reader : Reader α} {opcode : Opcode} {found : α} :
    (reader.orTruncated address opcode).Reads input found rest notices
      ↔ reader.Reads input found rest notices := by
  unfold Reader.Reads Reader.orTruncated
  split <;> simp_all

namespace Operands

variable {opcode : Opcode} {isWide : Bool} {operands : Operands}

/-- The handle kept for an index is what the pool answers there. -/
theorem names_iff : operands.Names pool ↔
    ∀ index id, operands.constant? = some (index, id) → id = (pool.idAt index).toOption := by
  refine forall₂_congr fun index id => imp_congr_right fun _ => ⟨fun h => ?_, ?_⟩
  · exact Option.ext fun handle => (h handle).trans toOption_eq_some_iff.symm
  · rintro rfl handle
    exact toOption_eq_some_iff

theorem reads_bind_readConstant {α β : Type} {make : UInt16 → Option ConstantId → α}
    {next : α → Reader β} {found : β} :
    (readConstant pool make >>= next).Reads input found rest notices
      ↔ ∃ index middle, input = BigEndian.u16 index ++ middle
        ∧ (next (make index (pool.idAt index).toOption)).Reads middle found rest notices := by
  rw [readConstant, bind_assoc, Reader.reads_bind_exact Reader.reads_u16]
  simp only [pure_bind]

/-- A number and an offset are read as they are written. -/
theorem reads_switchPair {input rest : Bytes} {pair : Int32 × Int32} {notices : List Notice} :
    (do let key ← Reader.i32
        let offset ← Reader.i32
        return (key, offset) : Reader (Int32 × Int32)).Reads input pair rest notices
      ↔ input = (BigEndian.i32 pair.1 ++ BigEndian.i32 pair.2) ++ rest ∧ notices = [] := by
  simp only [Reader.reads_bind_exact Reader.reads_i32, Reader.reads_pure]
  constructor
  · rintro ⟨key, _, rfl, offset, _, rfl, rfl, rfl, rfl⟩
    exact ⟨(List.append_assoc ..).symm, rfl⟩
  · rintro ⟨rfl, rfl⟩
    exact ⟨pair.1, _, List.append_assoc .., pair.2, rest, rfl, rfl, rfl, rfl⟩

/-- A table switch is its padding, the default, the two bounds and an offset for each value between.
-/
theorem reads_readTableSwitch :
    (readTableSwitch address).Reads input operands rest notices
      ↔ ∃ ignored otherwise low high offsets, operands = tableSwitch otherwise low high offsets
        ∧ ignored.length = switchPadding address
        ∧ (offsets.length : Int) = high.toInt - low.toInt + 1 ∧ low.toInt ≤ high.toInt
        ∧ input = ignored ++ (BigEndian.i32 otherwise ++ (BigEndian.i32 low
          ++ (BigEndian.i32 high ++ (offsets.flatMap BigEndian.i32 ++ rest))))
        ∧ notices = [] := by
  simp only [readTableSwitch, Reader.reads_bind_block, Reader.reads_bind_exact Reader.reads_i32,
    Int32.lt_iff_toInt_lt]
  constructor
  · rintro ⟨ignored, _, hlength, rfl, otherwise, _, rfl, low, _, rfl, high, _, rfl, h⟩
    split at h
    next => exact absurd h Reader.reads_fail
    next hlt =>
      obtain ⟨offsets, hoffsets, rfl⟩ := Reader.reads_map.mp h
      obtain ⟨hcount, rfl, rfl⟩ := (Reader.reads_many_exact Reader.reads_i32).mp hoffsets
      exact ⟨ignored, otherwise, low, high, offsets, rfl, hlength, by omega, by omega, rfl, rfl⟩
  · rintro ⟨ignored, otherwise, low, high, offsets, rfl, hlength, hcount, hle, rfl, rfl⟩
    refine ⟨ignored, _, hlength, rfl, otherwise, _, rfl, low, _, rfl, high, _, rfl, ?_⟩
    rw [if_neg (by omega)]
    refine Reader.reads_map.mpr ⟨offsets, ?_, rfl⟩
    exact (Reader.reads_many_exact Reader.reads_i32).mpr ⟨by omega, rfl, rfl⟩

/-- A lookup switch is its padding, the default, the count and that many pairs. -/
theorem reads_readLookupSwitch :
    (readLookupSwitch address).Reads input operands rest notices
      ↔ ∃ ignored otherwise pairs, operands = lookupSwitch otherwise pairs
        ∧ ignored.length = switchPadding address ∧ pairs.length < 2 ^ 31
        ∧ input = ignored ++ (BigEndian.i32 otherwise
          ++ (BigEndian.i32 (Int32.ofNat pairs.length)
            ++ (pairs.flatMap (fun pair => BigEndian.i32 pair.1 ++ BigEndian.i32 pair.2) ++ rest)))
        ∧ notices = [] := by
  simp only [readLookupSwitch, Reader.reads_bind_block, Reader.reads_bind_exact Reader.reads_i32,
    Int32.lt_iff_toInt_lt, Int32.toInt_zero]
  constructor
  · rintro ⟨ignored, _, hlength, rfl, otherwise, _, rfl, count, _, rfl, h⟩
    split at h
    next => exact absurd h Reader.reads_fail
    next hlt =>
      obtain ⟨pairs, hpairs, rfl⟩ := Reader.reads_map.mp h
      obtain ⟨hcount, rfl, rfl⟩ := (Reader.reads_many_exact reads_switchPair).mp hpairs
      have hbound := count.toInt_lt
      have hofNat : Int32.ofNat pairs.length = count := by
        apply Int32.toInt_inj.mp
        rw [Int32.toInt_ofNat_of_lt (by omega)]
        omega
      exact ⟨ignored, otherwise, pairs, rfl, hlength, by omega, by rw [hofNat], rfl⟩
  · rintro ⟨ignored, otherwise, pairs, rfl, hlength, hbound, rfl, rfl⟩
    refine ⟨ignored, _, hlength, rfl, otherwise, _, rfl, Int32.ofNat pairs.length, _, rfl, ?_⟩
    have hcount : (Int32.ofNat pairs.length).toInt = pairs.length :=
      Int32.toInt_ofNat_of_lt hbound
    rw [if_neg (by omega), hcount]
    refine Reader.reads_map.mpr ⟨pairs, ?_, rfl⟩
    exact (Reader.reads_many_exact reads_switchPair).mpr ⟨rfl, rfl, rfl⟩

/-- Soundness: operands that are read have the shape of their form, and their bytes were taken. -/
theorem sound_of_reads_read
    (h : (read pool address opcode isWide).Reads input operands rest notices) :
    operands.Fits isWide opcode.form ∧ operands.Names pool
      ∧ (∃ ignored : Bytes, ignored.length = opcode.form.ignored address
        ∧ input = operands.encode opcode.form isWide ignored ++ rest) ∧ notices = [] := by
  rw [names_iff]
  unfold read at h
  cases hform : opcode.form with simp only [hform] at h
  | nothing =>
    obtain ⟨rfl, rfl, rfl⟩ := Reader.reads_pure.mp h
    exact ⟨.nothing, by simp [constant?], ⟨[], rfl, rfl⟩, rfl⟩
  | immediate8 =>
    obtain ⟨value, rfl, rfl, rfl⟩ := (Reader.reads_map_exact Reader.reads_i8).mp h
    refine ⟨.immediate8 ?_ ?_, by simp [constant?], ⟨[], rfl, by simp [encode]⟩, rfl⟩
    · simpa using value.le_toInt
    · simpa using value.toInt_lt
  | immediate16 =>
    obtain ⟨value, rfl, rfl, rfl⟩ := (Reader.reads_map_exact Reader.reads_i16).mp h
    exact ⟨.immediate16, by simp [constant?], ⟨[], rfl, rfl⟩, rfl⟩
  | constant8 =>
    simp only [Reader.reads_bind_exact Reader.reads_u8, Reader.reads_pure] at h
    obtain ⟨index, _, rfl, rfl, rfl, rfl⟩ := h
    refine ⟨.constant8 ?_, by simp [constant?], ⟨[], rfl, by simp [encode]⟩, rfl⟩
    simpa using index.toNat_lt
  | constant16 =>
    rw [← bind_pure (readConstant pool constant), reads_bind_readConstant] at h
    obtain ⟨index, _, rfl, h⟩ := h
    obtain ⟨rfl, rfl, rfl⟩ := Reader.reads_pure.mp h
    exact ⟨.constant16, by simp [constant?], ⟨[], rfl, rfl⟩, rfl⟩
  | interfaceCall =>
    simp only [reads_bind_readConstant, Reader.reads_bind_exact Reader.reads_u8,
      Reader.reads_pure] at h
    obtain ⟨index, _, rfl, count, _, rfl, unused, _, rfl, rfl, rfl, rfl⟩ := h
    exact ⟨.interfaceCall, by simp [constant?], ⟨BigEndian.u8 unused, rfl, by simp [encode]⟩, rfl⟩
  | dynamicCall =>
    simp only [reads_bind_readConstant, Reader.reads_bind_exact Reader.reads_u16,
      Reader.reads_pure] at h
    obtain ⟨index, _, rfl, unused, _, rfl, rfl, rfl, rfl⟩ := h
    exact ⟨.dynamicCall, by simp [constant?], ⟨BigEndian.u16 unused, rfl, by simp [encode]⟩, rfl⟩
  | multiArray =>
    simp only [reads_bind_readConstant, Reader.reads_bind_exact Reader.reads_u8,
      Reader.reads_pure] at h
    obtain ⟨index, _, rfl, dimensions, _, rfl, rfl, rfl, rfl⟩ := h
    exact ⟨.multiArray, by simp [constant?], ⟨[], rfl, by simp [encode]⟩, rfl⟩
  | localSlot =>
    cases isWide with
    | true =>
      obtain ⟨slot, rfl, rfl, rfl⟩ := (Reader.reads_map_exact Reader.reads_u16).mp h
      exact ⟨.localSlot nofun, by simp [constant?], ⟨[], rfl, rfl⟩, rfl⟩
    | false =>
      obtain ⟨slot, rfl, rfl, rfl⟩ := (Reader.reads_map_exact Reader.reads_u8).mp h
      refine ⟨.localSlot fun _ => ?_, by simp [constant?], ⟨[], rfl, by simp [encode]⟩, rfl⟩
      simpa using slot.toNat_lt
  | increment =>
    cases isWide with
    | true =>
      simp only [if_true, Reader.reads_bind_exact Reader.reads_u16,
        Reader.reads_bind_exact Reader.reads_i16, Reader.reads_pure] at h
      obtain ⟨slot, _, rfl, delta, _, rfl, rfl, rfl, rfl⟩ := h
      exact ⟨.increment nofun nofun, by simp [constant?], ⟨[], rfl, by simp [encode]⟩, rfl⟩
    | false =>
      simp only [Bool.false_eq_true, if_false, Reader.reads_bind_exact Reader.reads_u8,
        Reader.reads_bind_exact Reader.reads_i8, Reader.reads_pure] at h
      obtain ⟨slot, _, rfl, delta, _, rfl, rfl, rfl, rfl⟩ := h
      refine ⟨.increment (fun _ => ?_) fun _ => ?_, by simp [constant?],
        ⟨[], rfl, by simp [encode]⟩, rfl⟩
      · simpa using slot.toNat_lt
      · simpa using ⟨delta.le_toInt, delta.toInt_lt⟩
  | branch16 =>
    obtain ⟨offset, rfl, rfl, rfl⟩ := (Reader.reads_map_exact Reader.reads_i16).mp h
    refine ⟨.branch16 ?_ ?_, by simp [constant?], ⟨[], rfl, by simp [encode]⟩, rfl⟩
    · simpa using offset.le_toInt
    · simpa using offset.toInt_lt
  | branch32 =>
    obtain ⟨offset, rfl, rfl, rfl⟩ := (Reader.reads_map_exact Reader.reads_i32).mp h
    exact ⟨.branch32, by simp [constant?], ⟨[], rfl, rfl⟩, rfl⟩
  | arrayType =>
    obtain ⟨code, rfl, rfl, rfl⟩ := (Reader.reads_map_exact Reader.reads_u8).mp h
    exact ⟨.arrayType, by simp [constant?], ⟨[], rfl, rfl⟩, rfl⟩
  | tableSwitch =>
    obtain ⟨ignored, otherwise, low, high, offsets, rfl, hlength, hcount, hle, rfl, rfl⟩ :=
      reads_readTableSwitch.mp h
    refine ⟨.tableSwitch hcount hle, by simp [constant?], ⟨ignored, ?_, by simp [encode]⟩, rfl⟩
    rw [hlength, switchPadding_eq, OperandForm.ignored]
  | lookupSwitch =>
    obtain ⟨ignored, otherwise, pairs, rfl, hlength, hbound, rfl, rfl⟩ :=
      reads_readLookupSwitch.mp h
    refine ⟨.lookupSwitch hbound, by simp [constant?], ⟨ignored, ?_, by simp [encode]⟩, rfl⟩
    rw [hlength, switchPadding_eq, OperandForm.ignored]

/-- Completeness: the bytes of operands of the right shape are read as those operands. -/
theorem reads_read_of_fits {form : OperandForm} (hform : opcode.form = form)
    (hfits : operands.Fits isWide form) (hnames : operands.Names pool) {ignored : Bytes}
    (hignored : ignored.length = form.ignored address) :
    (read pool address opcode isWide).Reads
      (operands.encode form isWide ignored ++ rest) operands rest [] := by
  rw [names_iff] at hnames
  unfold read
  rw [hform]
  cases hfits with
  | nothing => exact Reader.reads_pure.mpr ⟨rfl, rfl, rfl⟩
  | @immediate8 value hge hlt =>
    refine (Reader.reads_map_exact Reader.reads_i8).mpr ⟨value.toInt8, ?_, rfl, rfl⟩
    rw [toInt16_toInt8_of_range hge hlt]
  | @immediate16 value =>
    exact (Reader.reads_map_exact Reader.reads_i16).mpr ⟨value, rfl, rfl, rfl⟩
  | @constant8 index id hlt =>
    obtain rfl := hnames index id rfl
    refine (Reader.reads_bind_exact Reader.reads_u8).mpr ⟨index.toUInt8, rest, rfl, ?_⟩
    rw [toUInt16_toUInt8_of_lt hlt]
    exact Reader.reads_pure.mpr ⟨rfl, rfl, rfl⟩
  | @constant16 index id =>
    obtain rfl := hnames index id rfl
    simp only
    rw [← bind_pure (readConstant pool constant), reads_bind_readConstant]
    exact ⟨index, rest, rfl, Reader.reads_pure.mpr ⟨rfl, rfl, rfl⟩⟩
  | @interfaceCall index id count =>
    obtain rfl := hnames index id rfl
    obtain ⟨unused, rfl⟩ := List.length_eq_one_iff.mp hignored
    simp only [reads_bind_readConstant, Reader.reads_bind_exact Reader.reads_u8]
    exact ⟨index, _, List.append_assoc .., count, _, rfl, unused, rest, rfl,
      Reader.reads_pure.mpr ⟨rfl, rfl, rfl⟩⟩
  | @dynamicCall index id =>
    obtain rfl := hnames index id rfl
    simp only [reads_bind_readConstant, Reader.reads_bind_exact Reader.reads_u16]
    refine ⟨index, ignored ++ rest, by simp [encode], UInt16.ofNat (BigEndian.decode ignored), rest,
      ?_, Reader.reads_pure.mpr ⟨rfl, rfl, rfl⟩⟩
    have hlength : ignored.length = 2 := hignored
    have hlt := BigEndian.decode_lt ignored
    rw [hlength] at hlt
    rw [← BigEndian.encode_two_of_lt hlt, ← hlength, BigEndian.encode_decode]
  | @multiArray index id dimensions =>
    obtain rfl := hnames index id rfl
    simp only [reads_bind_readConstant, Reader.reads_bind_exact Reader.reads_u8]
    exact ⟨index, _, by simp [encode], dimensions, rest, rfl,
      Reader.reads_pure.mpr ⟨rfl, rfl, rfl⟩⟩
  | @localSlot slot hlt =>
    cases isWide with
    | true => exact (Reader.reads_map_exact Reader.reads_u16).mpr ⟨slot, rfl, rfl, rfl⟩
    | false =>
      refine (Reader.reads_map_exact Reader.reads_u8).mpr ⟨slot.toUInt8, ?_, rfl, rfl⟩
      rw [toUInt16_toUInt8_of_lt (hlt rfl)]
  | @increment slot delta hlt hrange =>
    cases isWide with
    | true =>
      simp only [if_true, Reader.reads_bind_exact Reader.reads_u16,
        Reader.reads_bind_exact Reader.reads_i16]
      exact ⟨slot, _, by simp [encode], delta, rest, rfl, Reader.reads_pure.mpr ⟨rfl, rfl, rfl⟩⟩
    | false =>
      obtain ⟨hge, hdelta⟩ := hrange rfl
      simp only [Bool.false_eq_true, if_false, Reader.reads_bind_exact Reader.reads_u8,
        Reader.reads_bind_exact Reader.reads_i8]
      refine ⟨slot.toUInt8, _, by simp [encode], delta.toInt8, rest, rfl, ?_⟩
      rw [toUInt16_toUInt8_of_lt (hlt rfl), toInt16_toInt8_of_range hge hdelta]
      exact Reader.reads_pure.mpr ⟨rfl, rfl, rfl⟩
  | @branch16 offset hge hlt =>
    refine (Reader.reads_map_exact Reader.reads_i16).mpr ⟨offset.toInt16, ?_, rfl, rfl⟩
    rw [toInt32_toInt16_of_range hge hlt]
  | @branch32 offset =>
    exact (Reader.reads_map_exact Reader.reads_i32).mpr ⟨offset, rfl, rfl, rfl⟩
  | @arrayType code => exact (Reader.reads_map_exact Reader.reads_u8).mpr ⟨code, rfl, rfl, rfl⟩
  | @tableSwitch otherwise low high offsets hcount hle =>
    rw [OperandForm.ignored, ← switchPadding_eq] at hignored
    exact reads_readTableSwitch.mpr ⟨ignored, otherwise, low, high, offsets, rfl, hignored, hcount,
      hle, by simp [encode], rfl⟩
  | @lookupSwitch otherwise pairs hbound =>
    rw [OperandForm.ignored, ← switchPadding_eq] at hignored
    exact reads_readLookupSwitch.mpr ⟨ignored, otherwise, pairs, rfl, hignored, hbound,
      by simp [encode], rfl⟩

/-- The length of operands is the number of the bytes that are written for them. -/
theorem length_encode {form : OperandForm} (hform : opcode.form = form)
    (hfits : operands.Fits isWide form) {ignored : Bytes}
    (hignored : ignored.length = form.ignored address) :
    (operands.encode form isWide ignored).length = operands.size opcode isWide address := by
  have hpadding := switchPadding_eq address
  unfold size
  rw [hform]
  cases hfits with
  | localSlot | increment => cases isWide <;> simp [encode]
  | tableSwitch | lookupSwitch =>
    rw [OperandForm.ignored, ← hpadding] at hignored
    simp only [encode, List.length_append, List.length_flatMap, BigEndian.length_i32, hignored,
      List.map_const', List.sum_replicate_nat]
    omega
  | interfaceCall | dynamicCall => simp [encode, hignored, OperandForm.ignored]
  | _ => simp [encode]

end Operands

/-! ## Instructions -/

/-- What the prefix may stand before is an opcode, and not the prefix itself. -/
theorem Opcode.isDefined_of_isWidenable {opcode : Opcode} (h : opcode.isWidenable) :
    opcode.isDefined ∧ opcode ≠ widePrefix := by
  refine ⟨?_, fun heq => absurd (heq ▸ h) (by decide)⟩
  have hle : opcode.byte ≤ 0xca := by
    simp only [isWidenable, Bool.or_eq_true, Bool.and_eq_true, decide_eq_true_eq, beq_iff_eq,
      UInt8.le_iff_toNat_le, ← UInt8.toNat_inj, UInt8.reduceToNat] at h ⊢
    omega
  simp [isDefined, hle]

namespace Instruction

variable {instruction : Instruction} {opcode : Opcode} {isWide : Bool}

theorem form_eq (instruction : Instruction) : instruction.form = instruction.opcode.form :=
  instruction.opcode.form_eq_named.symm

/-- Only the operands of an instruction are read; its address and opcode are given. -/
theorem reads_readOperands :
    (readOperands pool address opcode isWide).Reads input instruction rest notices
      ↔ ∃ operands, instruction = ⟨address, opcode, isWide, operands⟩
        ∧ (Operands.read pool address opcode isWide).Reads input operands rest notices := by
  rw [readOperands, Reader.reads_map]
  simp only [Reader.reads_orTruncated, and_comm]

/-- The prefix or the opcode tells how the operands are read. -/
theorem reads_read :
    (Instruction.read pool address).Reads input instruction rest notices
      ↔ ∃ (opcode : Opcode) (isWide : Bool) (middle : Bytes),
        opcode.isDefined ∧ opcode ≠ .widePrefix ∧ (isWide → opcode.isWidenable)
        ∧ input = (if isWide then [0xc4] else []) ++ [opcode.byte] ++ middle
        ∧ (readOperands pool address opcode isWide).Reads middle instruction rest notices := by
  simp only [Instruction.read, Reader.reads_bind_exact Reader.reads_u8]
  constructor
  · rintro ⟨byte, middle, rfl, h⟩
    split at h
    case isTrue hfirst =>
      rw [Reader.reads_bind_exact (Reader.reads_orTruncated.trans Reader.reads_u8)] at h
      obtain ⟨second, middle, rfl, h⟩ := h
      obtain rfl : byte = 0xc4 := congrArg Opcode.byte hfirst
      split at h
      case isTrue hwidenable =>
        obtain ⟨hdefined, hne⟩ := Opcode.isDefined_of_isWidenable hwidenable
        exact ⟨⟨second⟩, true, middle, hdefined, hne, fun _ => hwidenable, rfl, h⟩
      case isFalse => exact absurd h Reader.reads_fail
    case isFalse hne =>
      split at h
      case isTrue hdefined =>
        exact ⟨⟨byte⟩, false, middle, hdefined, hne, by simp, rfl, h⟩
      case isFalse => exact absurd h Reader.reads_fail
  · rintro ⟨opcode, isWide, middle, hdefined, hne, hwide, rfl, h⟩
    cases isWide with
    | true =>
      refine ⟨0xc4, _, rfl, ?_⟩
      rw [if_pos (show (⟨0xc4⟩ : Opcode) = .widePrefix from rfl),
        Reader.reads_bind_exact (Reader.reads_orTruncated.trans Reader.reads_u8)]
      refine ⟨opcode.byte, middle, rfl, ?_⟩
      rwa [if_pos (hwide rfl)]
    | false =>
      refine ⟨opcode.byte, _, rfl, ?_⟩
      rwa [if_neg hne, if_pos hdefined]

/-- Reading an instruction succeeds on exactly the bytes that the grammar gives to it. -/
theorem reads_read_iff :
    (Instruction.read pool address).Reads input instruction rest notices
      ↔ instruction.address = address ∧ instruction.WellFormed pool
        ∧ (∃ bytes, instruction.Writes bytes ∧ input = bytes ++ rest) ∧ notices = [] := by
  rw [reads_read]
  constructor
  · rintro ⟨opcode, isWide, middle, hdefined, hne, hwide, rfl, h⟩
    obtain ⟨operands, rfl, hoperands⟩ := reads_readOperands.mp h
    obtain ⟨hfits, hnames, ⟨ignored, hignored, rfl⟩, rfl⟩ :=
      Operands.sound_of_reads_read hoperands
    rw [← form_eq ⟨address, opcode, isWide, operands⟩] at hfits hignored
    refine ⟨rfl, ⟨hdefined, hne, hwide, hfits, hnames⟩, ⟨_, ⟨ignored, hignored, rfl⟩, ?_⟩, rfl⟩
    rw [encode, form_eq]
    simp only [List.append_assoc]
  · rintro ⟨rfl, hwell, ⟨_, ⟨ignored, hignored, rfl⟩, rfl⟩, rfl⟩
    refine ⟨instruction.opcode, instruction.isWide, _, hwell.isDefined, hwell.ne_prefix,
      hwell.isWidenable, List.append_assoc .., ?_⟩
    refine reads_readOperands.mpr ⟨instruction.operands, rfl, ?_⟩
    exact Operands.reads_read_of_fits (form_eq instruction).symm hwell.fits hwell.names hignored

/-- An instruction takes its size in bytes. -/
theorem length_of_writes (hwell : instruction.WellFormed pool) {bytes : Bytes}
    (hwrites : instruction.Writes bytes) : bytes.length = instruction.size := by
  obtain ⟨ignored, hignored, rfl⟩ := hwrites
  rw [encode, List.length_append, List.length_append,
    Operands.length_encode (form_eq instruction).symm hwell.fits hignored, size]
  cases instruction.isWide <;> rfl

theorem size_pos (instruction : Instruction) : 0 < instruction.size := by
  unfold size
  split <;> omega

/-- The length tells of no more bytes than there are. -/
theorem toNat_length_le (instruction : Instruction) :
    instruction.length.toNat ≤ instruction.size := by
  rw [length, Nat.toUInt32_eq, UInt32.toNat_ofNat']
  exact Nat.mod_le _ _

/-- Of less than `2 ^ 32` bytes, the length tells how many there are. -/
theorem toNat_length (h : instruction.size < 2 ^ 32) :
    instruction.length.toNat = instruction.size :=
  UInt32.toNat_ofNat_of_lt' h

end Instruction

/-! ## Single steps -/

namespace Walk

variable {walk later : Walk} {instruction : Instruction}

/-- All bytes up to the end of the walk have addresses. -/
def Addressable (walk : Walk) : Prop := walk.position + walk.rest.length < 2 ^ 32

/-- A walk over a code array begins with an address that is its position. -/
theorem addressable_start {code : Bytes} (h : IsCodeArray code) : (start code).Addressable := by
  rw [Addressable, start, Nat.zero_add]
  exact h

theorem Addressable.toNat_address (h : walk.Addressable) : walk.address.toNat = walk.position :=
  UInt32.toNat_ofNat_of_lt' (Nat.lt_of_le_of_lt (Nat.le_add_right _ _) h)

/-- A step of a walk: the instruction in front of the rest, at the address where the walk stands,
and the walk behind the bytes of the instruction, of whose number nothing is lost. -/
structure Steps (pool : Pool) (walk : Walk) (instruction : Instruction) (later : Walk) : Prop where
  address_eq : instruction.address = walk.address
  wellFormed : instruction.WellFormed pool
  exists_bytes : ∃ bytes, instruction.Writes bytes ∧ walk.rest = bytes ++ later.rest
  position_eq : later.position = walk.position + instruction.length.toNat
  length_eq : instruction.length.toNat = instruction.size
  not_failed : later.failed = false

namespace Steps

theorem length_pos (h : walk.Steps pool instruction later) : 0 < instruction.length.toNat := by
  rw [h.length_eq]
  exact instruction.size_pos

/-- What is left reaches to the same end. -/
theorem end_eq (h : walk.Steps pool instruction later) :
    later.position + later.rest.length = walk.position + walk.rest.length := by
  obtain ⟨bytes, hwrites, hrest⟩ := h.exists_bytes
  have hlength := Instruction.length_of_writes h.wellFormed hwrites
  rw [h.position_eq, h.length_eq, hrest, List.length_append, hlength]
  omega

theorem addressable (h : walk.Steps pool instruction later) (hwalk : walk.Addressable) :
    later.Addressable := by
  rw [Addressable, h.end_eq]
  exact hwalk

/-- The instruction starts where the walk stands. -/
theorem toNat_address (h : walk.Steps pool instruction later) (hwalk : walk.Addressable) :
    instruction.address.toNat = walk.position := by
  rw [h.address_eq, hwalk.toNat_address]

/-- It ends where the walk goes on, which is as far behind its address as it is long. -/
theorem toNat_nextAddress (h : walk.Steps pool instruction later) (hwalk : walk.Addressable) :
    instruction.nextAddress.toNat = later.position
      ∧ instruction.nextAddress.toNat
        = instruction.address.toNat + instruction.length.toNat := by
  have hlater := h.position_eq
  have hsum : instruction.nextAddress.toNat
      = instruction.address.toNat + instruction.length.toNat := by
    have hlt := h.addressable hwalk
    rw [Addressable] at hlt
    rw [Instruction.nextAddress, UInt32.toNat_add, h.toNat_address hwalk]
    exact Nat.mod_eq_of_lt (by omega)
  rw [hsum, h.toNat_address hwalk, hlater]
  exact ⟨rfl, rfl⟩

end Steps

/-- Whatever the bytes, an instruction that is found is one of the grammar, in front of the rest and
at the address where the walk stands. The walk goes on behind as many bytes as its length tells. -/
theorem found_of_next? (hnext : walk.next? pool = some (.ok instruction, later)) :
    instruction.address = walk.address ∧ instruction.WellFormed pool
      ∧ (∃ bytes behind, instruction.Writes bytes ∧ walk.rest = bytes ++ behind)
      ∧ later = walk.skip instruction.length.toNat := by
  unfold next? at hnext
  split at hnext
  next => cases hnext
  next =>
    rcases Reader.reading_cases (Instruction.read pool walk.address walk.rest) with
      ⟨found, behind, hread⟩ | ⟨cause, hread⟩
    · rw [hread] at hnext
      cases hnext
      obtain ⟨haddress, hwell, ⟨bytes, hwrites, hrest⟩, -⟩ :=
        Instruction.reads_read_iff.mp hread
      exact ⟨haddress, hwell, ⟨bytes, behind, hwrites, hrest⟩, rfl⟩
    · rw [hread] at hnext
      cases hnext

/-- Skipping adds to the address, in 32 bits. -/
theorem address_skip (walk : Walk) (length : UInt32) :
    (walk.skip length.toNat).address = walk.address + length := by
  rw [address, skip, address, Nat.toUInt32_eq, UInt32.ofNat_add, UInt32.ofNat_toNat]

/-- An instruction that is found is a step of the walk, if all bytes have addresses. -/
theorem steps_of_next? (hwalk : walk.Addressable)
    (hnext : walk.next? pool = some (.ok instruction, later)) :
    walk.Steps pool instruction later := by
  obtain ⟨haddress, hwell, ⟨bytes, behind, hwrites, hrest⟩, rfl⟩ := found_of_next? hnext
  have hbytes := Instruction.length_of_writes hwell hwrites
  have hlength : instruction.length.toNat = instruction.size := by
    rw [Addressable, hrest, List.length_append] at hwalk
    exact Instruction.toNat_length (by omega)
  refine ⟨haddress, hwell, ⟨bytes, hwrites, ?_⟩, rfl, hlength, rfl⟩
  rw [skip, hlength, ← hbytes, hrest, List.drop_left]

/-- What a walk finds next: nothing at the end, an instruction in front of the rest, or a
failure. -/
theorem next?_cases (pool : Pool) (hwalk : walk.Addressable) :
    (walk.next? pool = none ∧ (walk.failed = true ∨ walk.rest = []))
      ∨ (∃ instruction later, walk.next? pool = some (.ok instruction, later)
        ∧ walk.Steps pool instruction later)
      ∨ ∃ cause, walk.next? pool = some (.error cause, { walk with failed := true }) := by
  by_cases hover : walk.failed = true ∨ walk.rest = []
  · exact .inl ⟨by rw [next?, if_pos hover], hover⟩
  · rcases Reader.reading_cases (Instruction.read pool walk.address walk.rest) with
      ⟨instruction, rest, hread⟩ | ⟨cause, hread⟩
    · have hnext : walk.next? pool
          = some (.ok instruction, walk.skip instruction.length.toNat) := by
        rw [next?, if_neg hover, hread]
      exact .inr (.inl ⟨_, _, hnext, steps_of_next? hwalk hnext⟩)
    · refine .inr (.inr ⟨cause, ?_⟩)
      rw [next?, if_neg hover, hread]

/-- An instruction of the grammar is the next one that a walk finds. -/
theorem next?_of_writes {position : Nat} {bytes : Bytes}
    (hwalk : Addressable ⟨position, bytes ++ rest, false⟩)
    (haddress : instruction.address.toNat = position) (hwell : instruction.WellFormed pool)
    (hwrites : instruction.Writes bytes) :
    next? pool ⟨position, bytes ++ rest, false⟩
      = some (.ok instruction, ⟨position + bytes.length, rest, false⟩) := by
  have hsize := Instruction.length_of_writes hwell hwrites
  have hlength : instruction.length.toNat = bytes.length := by
    rw [Addressable, List.length_append] at hwalk
    rw [hsize]
    exact Instruction.toNat_length (by omega)
  have hne : bytes ++ rest ≠ [] := by
    have hpos := instruction.size_pos
    exact List.append_ne_nil_of_left_ne_nil (List.length_pos_iff.mp (by omega)) rest
  have hstart : instruction.address = address ⟨position, bytes ++ rest, false⟩ :=
    UInt32.toNat_inj.mp (haddress.trans hwalk.toNat_address.symm)
  have hread : Instruction.read pool (address ⟨position, bytes ++ rest, false⟩) (bytes ++ rest)
      = ⟨.ok (instruction, rest), []⟩ :=
    Instruction.reads_read_iff.mpr ⟨hstart, hwell, ⟨bytes, hwrites, rfl⟩, rfl⟩
  have hover : ¬ (false = true ∨ bytes ++ rest = []) := by simp [hne]
  simp only [next?, if_neg hover, hread, skip, hlength, List.drop_left]

/-- Behind the last address nothing is left of the length: an instruction of `2 ^ 32` bytes, a
switch, keeps the walk where it is. -/
theorem next?_of_length_eq {bytes : Bytes} (hwell : instruction.WellFormed pool)
    (hwrites : instruction.Writes bytes) (hlength : bytes.length = 2 ^ 32)
    (haddress : instruction.address = walk.address) (hrest : walk.rest = bytes ++ rest)
    (hfailed : walk.failed = false) : walk.next? pool = some (.ok instruction, walk) := by
  have hread : Instruction.read pool walk.address walk.rest = ⟨.ok (instruction, rest), []⟩ :=
    Instruction.reads_read_iff.mpr ⟨haddress, hwell, ⟨bytes, hwrites, hrest⟩, rfl⟩
  have hzero : instruction.length.toNat = 0 := by
    rw [Instruction.length, ← Instruction.length_of_writes hwell hwrites, hlength]
    rfl
  have hover : ¬ (walk.failed = true ∨ walk.rest = []) := by
    have hne : bytes ≠ [] := List.length_pos_iff.mp (by omega)
    simp [hfailed, hrest, hne]
  have hskip : walk.skip 0 = walk := by
    rw [skip, Nat.add_zero, List.drop_zero, ← hfailed]
  rw [next?, if_neg hover, hread]
  simp only [hzero, hskip]

end Walk

/-! ## Whole code arrays -/

section Code

variable {instructions found : List Instruction} {code : Bytes} {start bound : Nat}

/-- Every instruction of a row stands in the code at its address. -/
theorem Instruction.Row.writes_slice (hrow : Row start instructions code)
    (hwell : ∀ instruction ∈ instructions, instruction.WellFormed pool)
    {instruction : Instruction} (hmem : instruction ∈ instructions) (rest : Bytes) :
    ∃ offset, instruction.address.toNat = start + offset
      ∧ instruction.size ≤ code.length
      ∧ instruction.Writes (((code ++ rest).drop offset).take instruction.size) := by
  induction hrow with
  | nil => exact absurd hmem List.not_mem_nil
  | @cons start first others bytes code haddress hwrites _ ih =>
    obtain ⟨hfirst, hothers⟩ := List.forall_mem_cons.mp hwell
    rw [List.append_assoc, List.length_append]
    rcases List.mem_cons.mp hmem with rfl | hmem
    · have hlength := Instruction.length_of_writes hfirst hwrites
      exact ⟨0, haddress, by omega, by rwa [List.drop_zero, ← hlength, List.take_left]⟩
    · obtain ⟨offset, hoffset, hsize, hslice⟩ := ih hothers hmem
      refine ⟨bytes.length + offset, by omega, by omega, ?_⟩
      rwa [List.drop_length_add_append]

namespace Disassembly

/-- Whatever the bytes, what a walk over them finds is of the grammar and stands in them. -/
theorem standsIn_of_mem_walkFrom {walk : Walk} (hposition : walk.position ≤ code.length)
    (hrest : walk.rest = code.drop walk.position)
    (hfound : ∀ instruction ∈ found, instruction.WellFormed pool ∧ instruction.StandsIn code)
    {instruction : Instruction}
    (hmem : instruction ∈ (walkFrom pool bound found walk).instructions) :
    instruction.WellFormed pool ∧ instruction.StandsIn code := by
  induction bound generalizing found walk with
  | zero => exact hfound instruction (List.mem_reverse.mp hmem)
  | succ bound ih =>
    rw [walkFrom] at hmem
    split at hmem
    next => exact hfound instruction (List.mem_reverse.mp hmem)
    next first later hnext =>
      obtain ⟨haddress, hwell, ⟨bytes, behind, hwrites, hsplit⟩, rfl⟩ := Walk.found_of_next? hnext
      have hcode : code.take walk.position ++ (bytes ++ behind) = code := by
        rw [← hsplit, hrest, List.take_append_drop]
      have hfirst : first.StandsIn code :=
        ⟨code.take walk.position, bytes, behind, hwrites, hcode.symm,
          by rw [List.length_take_of_le hposition, haddress, Walk.address]⟩
      refine ih ?_ ?_ (List.forall_mem_cons.mpr ⟨⟨hwell, hfirst⟩, hfound⟩) hmem
      · have hlength := Instruction.length_of_writes hwell hwrites
        have hle := first.toNat_length_le
        have hend := congrArg List.length hcode
        simp only [List.length_append, List.length_take_of_le hposition] at hend
        simp only [Walk.skip]
        omega
      · rw [Walk.skip, hrest, List.drop_drop]
    next => exact hfound instruction (List.mem_reverse.mp hmem)

/-- So it is with what is found from the start of the bytes. -/
theorem standsIn_of_mem {instruction : Instruction}
    (hmem : instruction ∈ (disassemble pool code).instructions) :
    instruction.WellFormed pool ∧ instruction.StandsIn code :=
  standsIn_of_mem_walkFrom (Nat.zero_le _) rfl (fun _ hnil => absurd hnil List.not_mem_nil) hmem

/-- The instructions that a walk finds are a row in front of the place where it stops. Unless it
fails, that is the end of the code. -/
theorem row_walkFrom (pool : Pool) (found : List Instruction) {walk : Walk}
    (hwalk : walk.Addressable) (hfailed : walk.failed = false) (hbound : walk.rest.length < bound) :
    ∃ instructions code,
      (walkFrom pool bound found walk).instructions = found.reverse ++ instructions
      ∧ Instruction.Row walk.position instructions code
      ∧ (∀ instruction ∈ instructions, instruction.WellFormed pool)
      ∧ walk.rest = code ++ (walkFrom pool bound found walk).stop.rest
      ∧ ((walkFrom pool bound found walk).failure = none →
        (walkFrom pool bound found walk).stop.rest = []) := by
  induction bound generalizing found walk with
  | zero => exact absurd hbound (Nat.not_lt_zero _)
  | succ bound ih =>
    rcases Walk.next?_cases pool hwalk with ⟨hnext, hover⟩ | ⟨first, later, hnext, hsteps⟩ |
      ⟨cause, hnext⟩
    · have hend : walk.rest = [] := hover.resolve_left (by simp [hfailed])
      simp only [walkFrom, hnext]
      exact ⟨[], [], by simp, .nil _, by simp, rfl, fun _ => hend⟩
    · obtain ⟨bytes, hwrites, hrest⟩ := hsteps.exists_bytes
      have hlength := Instruction.length_of_writes hsteps.wellFormed hwrites
      have hpos := first.size_pos
      rw [hrest, List.length_append] at hbound
      simp only [walkFrom, hnext]
      obtain ⟨others, code, hothers, hrow, hall, hcode, hend⟩ :=
        ih (first :: found) (hsteps.addressable hwalk) hsteps.not_failed (by omega)
      refine ⟨first :: others, bytes ++ code, ?_, ?_, ?_, ?_, hend⟩
      · rw [hothers, List.reverse_cons, List.append_assoc, List.singleton_append]
      · rw [hsteps.position_eq, hsteps.length_eq, ← hlength] at hrow
        exact .cons (hsteps.toNat_address hwalk) hwrites hrow
      · exact List.forall_mem_cons.mpr ⟨hsteps.wellFormed, hall⟩
      · rw [hrest, List.append_assoc, ← hcode]
    · simp only [walkFrom, hnext]
      exact ⟨[], [], by simp, .nil _, by simp, rfl, nofun⟩

/-- From the start of a row, a walk finds exactly the instructions of the row, and ends. -/
theorem walkFrom_of_row (hrow : Instruction.Row start instructions code)
    (hwell : ∀ instruction ∈ instructions, instruction.WellFormed pool)
    (hwalk : Walk.Addressable ⟨start, code, false⟩) (hbound : code.length < bound) :
    walkFrom pool bound found ⟨start, code, false⟩
      = ⟨found.reverse ++ instructions, none, ⟨start + code.length, [], false⟩⟩ := by
  induction hrow generalizing bound found with
  | nil start => cases bound <;> simp [walkFrom, Walk.next?]
  | @cons start first others bytes code haddress hwrites _ ih =>
    obtain ⟨hfirst, hothers⟩ := List.forall_mem_cons.mp hwell
    have hlength := Instruction.length_of_writes hfirst hwrites
    have hpos := first.size_pos
    have hlater : Walk.Addressable ⟨start + bytes.length, code, false⟩ := by
      simp only [Walk.Addressable, List.length_append] at hwalk ⊢
      omega
    rw [List.length_append] at hbound
    obtain ⟨bound, rfl⟩ : ∃ less, bound = less + 1 := ⟨bound - 1, by omega⟩
    simp only [walkFrom, Walk.next?_of_writes hwalk haddress hfirst hwrites]
    rw [ih hothers hlater (by omega), List.reverse_cons, List.append_assoc, List.singleton_append,
      List.length_append, Nat.add_assoc]

end Disassembly

end Code

/-- **Decoding is parsing by the grammar.** Whatever the bytes, each instruction found is one of the
grammar and stands in them, up to those that mean nothing, where its address tells in 32 bits. Of a
code array, it is the bytes at its address; the instructions found are a row from address 0 on, and
only a failure leaves code behind them. And a code array that is a row of instructions of the
grammar is taken apart into exactly these instructions. -/
theorem disassemble_iff_row (pool : Pool) (code : Bytes) :
    (∀ instruction ∈ (disassemble pool code).instructions,
        instruction.WellFormed pool ∧ instruction.StandsIn code)
      ∧ (IsCodeArray code →
        (∀ instruction ∈ (disassemble pool code).instructions, instruction.Writes
          ((code.drop instruction.address.toNat).take instruction.length.toNat))
        ∧ (∃ front, Instruction.Row 0 (disassemble pool code).instructions front
          ∧ code = front ++ (disassemble pool code).stop.rest
          ∧ ((disassemble pool code).failure = none → (disassemble pool code).stop.rest = []))
        ∧ ∀ instructions, disassemble pool code = ⟨instructions, none, ⟨code.length, [], false⟩⟩
          ↔ Instruction.Row 0 instructions code
            ∧ ∀ instruction ∈ instructions, instruction.WellFormed pool) := by
  refine ⟨fun instruction => Disassembly.standsIn_of_mem, fun hcode => ?_⟩
  have hbound : code.length < code.length + 1 := Nat.lt_succ_self _
  have hwalk := Walk.addressable_start hcode
  obtain ⟨instructions, front, hfound, hrow, hwell, hsplit, hend⟩ :=
    Disassembly.row_walkFrom pool [] hwalk rfl hbound
  obtain rfl : (disassemble pool code).instructions = instructions := hfound
  change code = front ++ (disassemble pool code).stop.rest at hsplit
  change Instruction.Row 0 _ front at hrow
  refine ⟨fun instruction hmem => ?_, ⟨front, hrow, hsplit, hend⟩,
    fun listed => ⟨fun heq => ?_, ?_⟩⟩
  · obtain ⟨offset, haddress, hsize, hwrites⟩ :=
      hrow.writes_slice hwell hmem (disassemble pool code).stop.rest
    have hlength : instruction.length.toNat = instruction.size := by
      rw [IsCodeArray, hsplit, List.length_append] at hcode
      exact Instruction.toNat_length (by omega)
    rw [Nat.zero_add] at haddress
    rwa [← hsplit, ← haddress, ← hlength] at hwrites
  · rw [heq, List.append_nil] at hsplit
    rw [heq] at hrow hwell
    exact ⟨hsplit ▸ hrow, hwell⟩
  · rintro ⟨hlisted, hgrammar⟩
    rw [disassemble, Walk.start, Disassembly.walkFrom_of_row hlisted hgrammar hwalk hbound,
      List.reverse_nil, List.nil_append, Nat.zero_add]

/-- A wide increment and, behind one byte of padding, a switch. -/
theorem row_of_wide_and_switch :
    let code : Bytes := [0xc4, 0x84, 1, 0, 0xff, 0xfe, 0xaa, 0x55, 0, 0, 0, 16, 0xff, 0xff, 0xff,
      0xff, 0, 0, 0, 0, 0, 0, 0, 8, 0, 0, 0, 12]
    let instructions : List Instruction :=
      [⟨0, ⟨0x84⟩, true, .increment 256 (-2)⟩, ⟨6, ⟨0xaa⟩, false, .tableSwitch 16 (-1) 0 [8, 12]⟩]
    IsCodeArray code ∧ disassemble (Pool.empty ⟨0⟩) code = ⟨instructions, none, ⟨28, [], false⟩⟩
      ∧ Instruction.Row 0 instructions code
      ∧ ∀ instruction ∈ instructions, instruction.WellFormed (Pool.empty ⟨0⟩) := by
  intro code instructions
  have hcode : IsCodeArray code := by decide
  have hfound : disassemble (Pool.empty ⟨0⟩) code = ⟨instructions, none, ⟨28, [], false⟩⟩ := by
    decide
  exact ⟨hcode, hfound, (((disassemble_iff_row _ code).2 hcode).2.2 instructions).mp hfound⟩

end ClassFormat
