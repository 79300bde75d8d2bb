import ClassFormat.Instruction.Opcode
import ClassFormat.Pool.Read
/-!
# Instructions

An instruction stands at an address of a code array: an opcode, perhaps behind the prefix `wide`,
and operands in the form that the opcode has. A constant among the operands is kept as its index,
along with its handle if the pool has a constant at that index.

`Instruction.read` takes one instruction off the front of the code from its address on, and
`Instruction.size` tells how many bytes that was. Where the operands of a switch start depends on
the address, since they are aligned.

Addresses and lengths are numbers of 32 bits, as the length of a code array is in a class file.
Bytes that do not come from one may be more: behind the first 2 ^ 32 of them addresses begin at 0
again, and an instruction of so many bytes loses that much of its length (`Instruction.length`).
-/

namespace ClassFormat

/-- Operands of an instruction. -/
inductive Operands where
  | nothing
  | constant (index : UInt16) (id : Option ConstantId)
  | interfaceCall (index : UInt16) (id : Option ConstantId) (count : UInt8)
  | dynamicCall (index : UInt16) (id : Option ConstantId)
  | multiArray (index : UInt16) (id : Option ConstantId) (dimensions : UInt8)
  | localSlot (slot : UInt16)
  | increment (slot : UInt16) (delta : Int16)
  /-- An offset from the address of the instruction. -/
  | branch (offset : Int32)
  | immediate (value : Int16)
  | arrayType (code : UInt8)
  | tableSwitch (otherwise low high : Int32) (offsets : List Int32)
  | lookupSwitch (otherwise : Int32) (pairs : List (Int32 × Int32))
deriving DecidableEq, Repr

/-- An instruction at its address. -/
structure Instruction where
  /-- Address of the first byte, which is the prefix if there is one. -/
  address : UInt32
  /-- The opcode, behind the prefix if there is one. -/
  opcode : Opcode
  isWide : Bool
  operands : Operands
deriving DecidableEq, Repr

/-- Bytes between the opcode of a switch and the next multiple of four. -/
def switchPadding (address : UInt32) : Nat := (4 - (address.toNat + 1) % 4) % 4

namespace Operands

/-- Number of bytes of the operands of an opcode. -/
def size (opcode : Opcode) (isWide : Bool) (address : UInt32) (operands : Operands) : Nat :=
  match opcode.form with
  | .nothing => 0
  | .immediate8 | .constant8 | .arrayType => 1
  | .immediate16 | .constant16 | .branch16 => 2
  | .multiArray => 3
  | .interfaceCall | .dynamicCall | .branch32 => 4
  | .localSlot => if isWide then 2 else 1
  | .increment => if isWide then 4 else 2
  | .tableSwitch | .lookupSwitch =>
    match operands with
    | tableSwitch _ _ _ offsets => switchPadding address + 12 + 4 * offsets.length
    | lookupSwitch _ pairs => switchPadding address + 8 + 8 * pairs.length
    | _ => 0

/-- The index of a constant, and its handle if there is one. -/
def readConstant {α : Type} (pool : Pool) (make : UInt16 → Option ConstantId → α) : Reader α := do
  let index ← Reader.u16
  return make index (pool.idAt index).toOption

/-- Offsets for all numbers between two bounds. -/
def readTableSwitch (address : UInt32) : Reader Operands := do
  let _ ← Reader.block (switchPadding address)
  let otherwise ← Reader.i32
  let low ← Reader.i32
  let high ← Reader.i32
  if high < low then Reader.fail (.invalidSwitch address)
  else tableSwitch otherwise low high <$> Reader.many (high.toInt - low.toInt + 1).toNat Reader.i32

/-- Pairs of a number and an offset. -/
def readLookupSwitch (address : UInt32) : Reader Operands := do
  let _ ← Reader.block (switchPadding address)
  let otherwise ← Reader.i32
  let count ← Reader.i32
  if count < 0 then Reader.fail (.invalidSwitch address)
  else lookupSwitch otherwise <$> Reader.many count.toInt.toNat do
    let key ← Reader.i32
    let offset ← Reader.i32
    return (key, offset)

/-- The operands of an opcode. -/
def read (pool : Pool) (address : UInt32) (opcode : Opcode) (isWide : Bool) : Reader Operands :=
  match opcode.form with
  | .nothing => pure nothing
  | .immediate8 => (fun value => immediate value.toInt16) <$> Reader.i8
  | .immediate16 => immediate <$> Reader.i16
  | .constant8 => do
    let index := (← Reader.u8).toUInt16
    return constant index (pool.idAt index).toOption
  | .constant16 => readConstant pool constant
  | .interfaceCall => do
    let call ← readConstant pool interfaceCall
    let count ← Reader.u8
    let _ ← Reader.u8
    return call count
  | .dynamicCall => do
    let call ← readConstant pool dynamicCall
    let _ ← Reader.u16
    return call
  | .multiArray => do
    let array ← readConstant pool multiArray
    return array (← Reader.u8)
  | .localSlot =>
    if isWide then localSlot <$> Reader.u16
    else (fun slot => localSlot slot.toUInt16) <$> Reader.u8
  | .increment => do
    if isWide then
      let slot ← Reader.u16
      return increment slot (← Reader.i16)
    else
      let slot ← Reader.u8
      return increment slot.toUInt16 (← Reader.i8).toInt16
  | .branch16 => (fun offset => branch offset.toInt32) <$> Reader.i16
  | .branch32 => branch <$> Reader.i32
  | .arrayType => arrayType <$> Reader.u8
  | .tableSwitch => readTableSwitch address
  | .lookupSwitch => readLookupSwitch address

/-- Branch offsets, the default one first. -/
def branchOffsets : Operands → List Int32
  | branch offset => [offset]
  | tableSwitch otherwise _ _ offsets => otherwise :: offsets
  | lookupSwitch otherwise pairs => otherwise :: pairs.map Prod.snd
  | _ => []

end Operands

/-- Input that ends inside an instruction is put down to the instruction. -/
def Reader.orTruncated {α : Type} (address : UInt32) (opcode : Opcode) (reader : Reader α) :
    Reader α := fun input =>
  match reader input with
  | ⟨.error (.endOfInput _), notices⟩ =>
    ⟨.error (.truncatedInstruction address opcode.byte), notices⟩
  | reading => reading

namespace Instruction

/-- Number of bytes, with the prefix and the padding of a switch. -/
def size (instruction : Instruction) : Nat :=
  (if instruction.isWide then 2 else 1)
    + instruction.operands.size instruction.opcode instruction.isWide instruction.address

/-- The number of bytes in 32 bits. Only a switch with a table of `2 ^ 32` bytes takes more. -/
def length (instruction : Instruction) : UInt32 := instruction.size.toUInt32

/-- Address behind the instruction. -/
def nextAddress (instruction : Instruction) : UInt32 := instruction.address + instruction.length

/-- Addresses the instruction may jump to. Offsets that lead out of the range of addresses are left
out. -/
def branchTargets (instruction : Instruction) : List UInt32 :=
  instruction.operands.branchOffsets.filterMap fun offset =>
    let target := (instruction.address.toNat : Int) + offset.toInt
    if 0 ≤ target ∧ target < UInt32.size then some target.toNat.toUInt32 else none

/-- An opcode and its operands behind the prefix, if there was one. -/
def readOperands (pool : Pool) (address : UInt32) (opcode : Opcode) (isWide : Bool) :
    Reader Instruction :=
  Instruction.mk address opcode isWide
    <$> (Operands.read pool address opcode isWide).orTruncated address opcode

/-- The instruction at an address. -/
def read (pool : Pool) (address : UInt32) : Reader Instruction := do
  let first := Opcode.mk (← Reader.u8)
  if first = .widePrefix then
    let second := Opcode.mk (← Reader.u8.orTruncated address first)
    if second.isWidenable then readOperands pool address second true
    else Reader.fail (.invalidWideOpcode address second.byte)
  else if first.isDefined then readOperands pool address first false
  else Reader.fail (.invalidOpcode address first.byte)

end Instruction

end ClassFormat
