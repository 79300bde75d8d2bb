import ClassFormat.Instruction.Basic
/-!
# Walking over code

A walk goes over a code array from its start, one instruction at a time. It ends behind the last
instruction, or at the first one that cannot be read: from there on nobody can tell where the next
instruction starts. `disassemble` takes the whole walk.

The walk goes on by the length that an instruction has in 32 bits. So its position counts all bytes,
but the address that an instruction is given is the position in 32 bits.
-/

namespace ClassFormat

/-- A place in the walk over a code array. -/
structure Walk where
  /-- Number of bytes in front of the next instruction. -/
  position : Nat
  /-- The code from there on. -/
  rest : Bytes
  /-- Whether the next instruction could not be read. -/
  failed : Bool
deriving DecidableEq, Repr

namespace Walk

def start (code : Bytes) : Walk := ⟨0, code, false⟩

/-- Address of the next instruction. -/
def address (walk : Walk) : UInt32 := walk.position.toUInt32

/-- The walk behind a number of bytes. -/
def skip (walk : Walk) (length : Nat) : Walk :=
  ⟨walk.position + length, walk.rest.drop length, false⟩

/-- The next instruction, or why it cannot be read, and the walk behind it. -/
def next? (pool : Pool) (walk : Walk) : Option (Except Error Instruction × Walk) :=
  if walk.failed ∨ walk.rest = [] then none
  else
    match (Instruction.read pool walk.address walk.rest).outcome with
    | .ok (instruction, _) => some (.ok instruction, walk.skip instruction.length.toNat)
    | .error cause => some (.error cause, { walk with failed := true })

end Walk

/-- What a walk over a code array found. -/
structure Disassembly where
  /-- The instructions that could be read. -/
  instructions : List Instruction
  /-- Why the one behind them could not, if there was one. -/
  failure : Option Error
  /-- Where the walk ended. -/
  stop : Walk
deriving DecidableEq, Repr

namespace Disassembly

/-- The walk from a place on, behind the instructions already found (last one first). In less than
`2 ^ 32` bytes each step takes at least one of them, so a bound of their number is never reached. In
more bytes an instruction may have the length 0, where the walk would not get on. -/
def walkFrom (pool : Pool) : Nat → List Instruction → Walk → Disassembly
  | 0, found, walk => ⟨found.reverse, none, walk⟩
  | bound + 1, found, walk =>
    match walk.next? pool with
    | none => ⟨found.reverse, none, walk⟩
    | some (.ok instruction, walk) => walkFrom pool bound (instruction :: found) walk
    | some (.error cause, walk) => ⟨found.reverse, some cause, walk⟩

/-- All instructions, if every one could be read. -/
def complete (disassembly : Disassembly) : Except Error (List Instruction) :=
  match disassembly.failure with
  | none => .ok disassembly.instructions
  | some cause => .error cause

end Disassembly

/-- The walk over a whole code array. -/
def disassemble (pool : Pool) (code : Bytes) : Disassembly :=
  Disassembly.walkFrom pool (code.length + 1) [] (Walk.start code)

end ClassFormat
