/-!
# Opcodes

An instruction starts with an opcode, a byte that names what it does and fixes the form of the
operands behind it. The bytes 0xcb to 0xfd are not opcodes. The prefix `wide` before a load, a
store, `iinc` or `ret` widens its operands; it is no instruction by itself.
-/

namespace ClassFormat

/-- A byte at the start of an instruction. -/
structure Opcode where
  byte : UInt8
deriving DecidableEq, Hashable, Repr

/-- Form of the operands behind an opcode. -/
inductive OperandForm where
  | nothing
  /-- A signed number in one byte. -/
  | immediate8
  /-- A signed number in two bytes. -/
  | immediate16
  /-- The index of a constant in one byte. -/
  | constant8
  /-- The index of a constant in two bytes. -/
  | constant16
  /-- An index, a count and a byte that is ignored. -/
  | interfaceCall
  /-- An index and two bytes that are ignored. -/
  | dynamicCall
  /-- An index and a number of dimensions. -/
  | multiArray
  /-- A local variable slot, of one byte or, widened, two. -/
  | localSlot
  /-- A slot and a signed number, of one byte each or, widened, two. -/
  | increment
  /-- A branch offset in two bytes. -/
  | branch16
  /-- A branch offset in four bytes. -/
  | branch32
  /-- The element type of an array. -/
  | arrayType
  /-- Aligned: a default offset, two bounds, and an offset for each number between them. -/
  | tableSwitch
  /-- Aligned: a default offset, a count, and as many pairs of a number and an offset. -/
  | lookupSwitch
deriving DecidableEq, Repr

namespace Opcode

def widePrefix : Opcode := ⟨0xc4⟩

/-- The names of the opcodes from 0x00 to 0xca. -/
def mnemonics : Array String := #[
  "nop", "aconst_null", "iconst_m1", "iconst_0", "iconst_1", "iconst_2", "iconst_3", "iconst_4",
  "iconst_5", "lconst_0", "lconst_1", "fconst_0", "fconst_1", "fconst_2", "dconst_0", "dconst_1",
  "bipush", "sipush", "ldc", "ldc_w", "ldc2_w", "iload", "lload", "fload", "dload", "aload",
  "iload_0", "iload_1", "iload_2", "iload_3", "lload_0", "lload_1", "lload_2", "lload_3",
  "fload_0", "fload_1", "fload_2", "fload_3", "dload_0", "dload_1", "dload_2", "dload_3",
  "aload_0", "aload_1", "aload_2", "aload_3", "iaload", "laload", "faload", "daload", "aaload",
  "baload", "caload", "saload", "istore", "lstore", "fstore", "dstore", "astore", "istore_0",
  "istore_1", "istore_2", "istore_3", "lstore_0", "lstore_1", "lstore_2", "lstore_3", "fstore_0",
  "fstore_1", "fstore_2", "fstore_3", "dstore_0", "dstore_1", "dstore_2", "dstore_3", "astore_0",
  "astore_1", "astore_2", "astore_3", "iastore", "lastore", "fastore", "dastore", "aastore",
  "bastore", "castore", "sastore", "pop", "pop2", "dup", "dup_x1", "dup_x2", "dup2", "dup2_x1",
  "dup2_x2", "swap", "iadd", "ladd", "fadd", "dadd", "isub", "lsub", "fsub", "dsub", "imul",
  "lmul", "fmul", "dmul", "idiv", "ldiv", "fdiv", "ddiv", "irem", "lrem", "frem", "drem", "ineg",
  "lneg", "fneg", "dneg", "ishl", "lshl", "ishr", "lshr", "iushr", "lushr", "iand", "land",
  "ior", "lor", "ixor", "lxor", "iinc", "i2l", "i2f", "i2d", "l2i", "l2f", "l2d", "f2i", "f2l",
  "f2d", "d2i", "d2l", "d2f", "i2b", "i2c", "i2s", "lcmp", "fcmpl", "fcmpg", "dcmpl", "dcmpg",
  "ifeq", "ifne", "iflt", "ifge", "ifgt", "ifle", "if_icmpeq", "if_icmpne", "if_icmplt",
  "if_icmpge", "if_icmpgt", "if_icmple", "if_acmpeq", "if_acmpne", "goto", "jsr", "ret",
  "tableswitch", "lookupswitch", "ireturn", "lreturn", "freturn", "dreturn", "areturn", "return",
  "getstatic", "putstatic", "getfield", "putfield", "invokevirtual", "invokespecial",
  "invokestatic", "invokeinterface", "invokedynamic", "new", "newarray", "anewarray",
  "arraylength", "athrow", "checkcast", "instanceof", "monitorenter", "monitorexit", "wide",
  "multianewarray", "ifnull", "ifnonnull", "goto_w", "jsr_w", "breakpoint"]

/-- Whether the byte is an opcode at all. -/
def isDefined (opcode : Opcode) : Bool := opcode.byte ≤ 0xca || 0xfe ≤ opcode.byte

/-- Name of an opcode. -/
def mnemonic (opcode : Opcode) : String :=
  if opcode.byte = 0xfe then "impdep1"
  else if opcode.byte = 0xff then "impdep2"
  else mnemonics.getD opcode.byte.toNat "undefined"

/-- Whether the prefix `wide` may stand before the opcode: loads, stores, `iinc` and `ret`. -/
def isWidenable (opcode : Opcode) : Bool :=
  (0x15 ≤ opcode.byte && opcode.byte ≤ 0x19) || (0x36 ≤ opcode.byte && opcode.byte ≤ 0x3a)
    || opcode.byte == 0x84 || opcode.byte == 0xa9

/-- Whether execution never goes on to the next instruction: jumps, switches, returns and throws. -/
def endsBlock (opcode : Opcode) : Bool :=
  opcode.byte == 0xa7 || opcode.byte == 0xc8 || opcode.byte == 0xbf
    || (0xa9 ≤ opcode.byte && opcode.byte ≤ 0xb1)

/-- Form of the operands behind an opcode. -/
def form (opcode : Opcode) : OperandForm :=
  let byte := opcode.byte
  if byte = 0x10 then .immediate8
  else if byte = 0x11 then .immediate16
  else if byte = 0x12 then .constant8
  else if 0x13 ≤ byte ∧ byte ≤ 0x14 then .constant16
  else if 0x15 ≤ byte ∧ byte ≤ 0x19 then .localSlot
  else if 0x36 ≤ byte ∧ byte ≤ 0x3a then .localSlot
  else if byte = 0x84 then .increment
  else if 0x99 ≤ byte ∧ byte ≤ 0xa8 then .branch16
  else if byte = 0xa9 then .localSlot
  else if byte = 0xaa then .tableSwitch
  else if byte = 0xab then .lookupSwitch
  else if 0xb2 ≤ byte ∧ byte ≤ 0xb8 then .constant16
  else if byte = 0xb9 then .interfaceCall
  else if byte = 0xba then .dynamicCall
  else if byte = 0xbb then .constant16
  else if byte = 0xbc then .arrayType
  else if byte = 0xbd then .constant16
  else if 0xc0 ≤ byte ∧ byte ≤ 0xc1 then .constant16
  else if byte = 0xc5 then .multiArray
  else if 0xc6 ≤ byte ∧ byte ≤ 0xc7 then .branch16
  else if 0xc8 ≤ byte ∧ byte ≤ 0xc9 then .branch32
  else .nothing

end Opcode

end ClassFormat
