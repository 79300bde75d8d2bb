import ClassFormat.Instruction.Walk
import ClassFormat.Proofs.Reading
import Mathlib.Algebra.Group.Int.Defs
/-!
# The grammar of code

Code is a row of instructions, and each instruction is written in one way: the prefix if it is wide,
the opcode, and its operands, every number most significant byte first. The name of the instruction
fixes the form of its operands (`OperandForm.named`). Only three forms leave a choice, since some of
their bytes mean nothing: the padding in front of an aligned switch, and the bytes that a call
leaves unused. `Instruction.encode` therefore takes those bytes as an argument.

`Instruction.WellFormed` says which instructions the grammar has, and `Instruction.Row` that code is
a row of instructions from a position on. A code array has less than `2 ^ 32` bytes (`IsCodeArray`),
so that each of its positions is an address. Nothing here mentions how instructions are read.
-/

namespace ClassFormat

/-! ## Forms by name -/

/-- The forms that have operands, each with the names of its instructions. -/
def OperandForm.members : List (OperandForm × List String) := [
  (.immediate8, ["bipush"]),
  (.immediate16, ["sipush"]),
  (.constant8, ["ldc"]),
  (.constant16, ["ldc_w", "ldc2_w", "getstatic", "putstatic", "getfield", "putfield",
    "invokevirtual", "invokespecial", "invokestatic", "new", "anewarray", "checkcast",
    "instanceof"]),
  (.interfaceCall, ["invokeinterface"]),
  (.dynamicCall, ["invokedynamic"]),
  (.multiArray, ["multianewarray"]),
  (.localSlot, ["iload", "lload", "fload", "dload", "aload", "istore", "lstore", "fstore",
    "dstore", "astore", "ret"]),
  (.increment, ["iinc"]),
  (.branch16, ["ifeq", "ifne", "iflt", "ifge", "ifgt", "ifle", "if_icmpeq", "if_icmpne",
    "if_icmplt", "if_icmpge", "if_icmpgt", "if_icmple", "if_acmpeq", "if_acmpne", "goto", "jsr",
    "ifnull", "ifnonnull"]),
  (.branch32, ["goto_w", "jsr_w"]),
  (.arrayType, ["newarray"]),
  (.tableSwitch, ["tableswitch"]),
  (.lookupSwitch, ["lookupswitch"])]

/-- Form of the operands of an instruction by its name. -/
def OperandForm.named (name : String) : OperandForm :=
  ((members.find? fun group => group.2.contains name).map Prod.fst).getD .nothing

/-- The ranges of opcodes agree with the names. -/
theorem Opcode.form_eq_named (opcode : Opcode) : opcode.form = .named opcode.mnemonic := by
  have hall : ∀ byte : Fin (2 ^ 8), (Opcode.mk (UInt8.ofFin byte)).form
      = .named (Opcode.mk (UInt8.ofFin byte)).mnemonic := by
    decide +kernel
  exact hall opcode.byte.toFin

/-! ## Operands -/

namespace Operands

/-- Operands in the shape of a form, each number in the range of its field. -/
inductive Fits (isWide : Bool) : OperandForm → Operands → Prop where
  | nothing : Fits isWide .nothing nothing
  | immediate8 {value : Int16} (ge : -2 ^ 7 ≤ value.toInt) (lt : value.toInt < 2 ^ 7) :
    Fits isWide .immediate8 (immediate value)
  | immediate16 {value : Int16} : Fits isWide .immediate16 (immediate value)
  | constant8 {index : UInt16} {id : Option ConstantId} (lt : index.toNat < 2 ^ 8) :
    Fits isWide .constant8 (constant index id)
  | constant16 {index : UInt16} {id : Option ConstantId} :
    Fits isWide .constant16 (constant index id)
  | interfaceCall {index : UInt16} {id : Option ConstantId} {count : UInt8} :
    Fits isWide .interfaceCall (interfaceCall index id count)
  | dynamicCall {index : UInt16} {id : Option ConstantId} :
    Fits isWide .dynamicCall (dynamicCall index id)
  | multiArray {index : UInt16} {id : Option ConstantId} {dimensions : UInt8} :
    Fits isWide .multiArray (multiArray index id dimensions)
  | localSlot {slot : UInt16} (lt : isWide = false → slot.toNat < 2 ^ 8) :
    Fits isWide .localSlot (localSlot slot)
  | increment {slot : UInt16} {delta : Int16} (lt : isWide = false → slot.toNat < 2 ^ 8)
    (range : isWide = false → -2 ^ 7 ≤ delta.toInt ∧ delta.toInt < 2 ^ 7) :
    Fits isWide .increment (increment slot delta)
  | branch16 {offset : Int32} (ge : -2 ^ 15 ≤ offset.toInt) (lt : offset.toInt < 2 ^ 15) :
    Fits isWide .branch16 (branch offset)
  | branch32 {offset : Int32} : Fits isWide .branch32 (branch offset)
  | arrayType {code : UInt8} : Fits isWide .arrayType (arrayType code)
  | tableSwitch {otherwise low high : Int32} {offsets : List Int32}
    (length : (offsets.length : Int) = high.toInt - low.toInt + 1) (le : low.toInt ≤ high.toInt) :
    Fits isWide .tableSwitch (tableSwitch otherwise low high offsets)
  | lookupSwitch {otherwise : Int32} {pairs : List (Int32 × Int32)} (lt : pairs.length < 2 ^ 31) :
    Fits isWide .lookupSwitch (lookupSwitch otherwise pairs)

/-- The index of a constant among the operands, with the handle kept for it. -/
def constant? : Operands → Option (UInt16 × Option ConstantId)
  | constant index id | interfaceCall index id _ | dynamicCall index id | multiArray index id _ =>
    some (index, id)
  | _ => none

/-- The handle is kept exactly if the pool has a constant at the index. -/
def Names (pool : Pool) (operands : Operands) : Prop :=
  ∀ index id, operands.constant? = some (index, id) →
    ∀ handle, id = some handle ↔ pool.idAt index = .ok handle

/-- The bytes of operands, `ignored` being those that mean nothing. -/
def encode (form : OperandForm) (isWide : Bool) (ignored : Bytes) (operands : Operands) : Bytes :=
  match form, operands with
  | .immediate8, immediate value => BigEndian.i8 value.toInt8
  | .immediate16, immediate value => BigEndian.i16 value
  | .constant8, constant index _ => BigEndian.u8 index.toUInt8
  | .constant16, constant index _ => BigEndian.u16 index
  | .interfaceCall, interfaceCall index _ count =>
    BigEndian.u16 index ++ BigEndian.u8 count ++ ignored
  | .dynamicCall, dynamicCall index _ => BigEndian.u16 index ++ ignored
  | .multiArray, multiArray index _ dimensions =>
    BigEndian.u16 index ++ BigEndian.u8 dimensions
  | .localSlot, localSlot slot =>
    if isWide then BigEndian.u16 slot else BigEndian.u8 slot.toUInt8
  | .increment, increment slot delta =>
    if isWide then BigEndian.u16 slot ++ BigEndian.i16 delta
    else BigEndian.u8 slot.toUInt8 ++ BigEndian.i8 delta.toInt8
  | .branch16, branch offset => BigEndian.i16 offset.toInt16
  | .branch32, branch offset => BigEndian.i32 offset
  | .arrayType, arrayType code => BigEndian.u8 code
  | .tableSwitch, tableSwitch otherwise low high offsets =>
    ignored ++ BigEndian.i32 otherwise ++ BigEndian.i32 low ++ BigEndian.i32 high
      ++ offsets.flatMap BigEndian.i32
  | .lookupSwitch, lookupSwitch otherwise pairs =>
    ignored ++ BigEndian.i32 otherwise ++ BigEndian.i32 (Int32.ofNat pairs.length)
      ++ pairs.flatMap fun pair => BigEndian.i32 pair.1 ++ BigEndian.i32 pair.2
  | _, _ => []

end Operands

/-- Number of bytes that mean nothing among the operands of an instruction at an address. -/
def OperandForm.ignored (form : OperandForm) (address : UInt32) : Nat :=
  match form with
  | .tableSwitch | .lookupSwitch => ((-((address.toNat : Int) + 1)) % 4).toNat
  | .interfaceCall => 1
  | .dynamicCall => 2
  | _ => 0

/-! ## Instructions -/

namespace Instruction

/-- Form of the operands, as the name of the instruction has it. -/
def form (instruction : Instruction) : OperandForm := .named instruction.opcode.mnemonic

/-- The bytes of an instruction, `ignored` being those that mean nothing. -/
def encode (ignored : Bytes) (instruction : Instruction) : Bytes :=
  (if instruction.isWide then [0xc4] else []) ++ [instruction.opcode.byte]
    ++ instruction.operands.encode instruction.form instruction.isWide ignored

/-- The bytes are those of the instruction, whatever stands where bytes mean nothing. -/
def Writes (instruction : Instruction) (bytes : Bytes) : Prop :=
  ∃ ignored : Bytes, ignored.length = instruction.form.ignored instruction.address
    ∧ bytes = instruction.encode ignored

/-- The bytes of the instruction are somewhere in the code, and its address tells where, as far as a
number of 32 bits can. -/
def StandsIn (instruction : Instruction) (code : Bytes) : Prop :=
  ∃ front bytes behind : Bytes, instruction.Writes bytes ∧ code = front ++ (bytes ++ behind)
    ∧ instruction.address = front.length.toUInt32

/-- An instruction of the grammar, in code that belongs to a pool. -/
structure WellFormed (pool : Pool) (instruction : Instruction) : Prop where
  isDefined : instruction.opcode.isDefined
  /-- The prefix is no instruction by itself. -/
  ne_prefix : instruction.opcode ≠ .widePrefix
  isWidenable : instruction.isWide → instruction.opcode.isWidenable
  fits : instruction.operands.Fits instruction.isWide instruction.form
  names : instruction.operands.Names pool

/-- Code that is a row of instructions from a position on. -/
inductive Row : Nat → List Instruction → Bytes → Prop where
  | nil (position : Nat) : Row position [] []
  | cons {position : Nat} {instruction : Instruction} {others : List Instruction}
    {bytes code : Bytes} : instruction.address.toNat = position → instruction.Writes bytes →
      Row (position + bytes.length) others code →
        Row position (instruction :: others) (bytes ++ code)

end Instruction

/-! ## Code arrays -/

/-- As many bytes as a code array may have: a class file states their number in 32 bits. -/
def IsCodeArray (code : Bytes) : Prop := code.length < 2 ^ 32

instance (code : Bytes) : Decidable (IsCodeArray code) :=
  inferInstanceAs (Decidable (code.length < 2 ^ 32))

end ClassFormat
