import ClassFormat.BitSet
import ClassFormat.Code.Handler
import ClassFormat.Instruction.Walk
/-!
# Addresses of interest

Facts about the addresses of a code array: where instructions start, where basic blocks start, which
branches lead to no instruction, and which exception handlers do not fit the instructions.
-/

namespace ClassFormat.Flow

/-- Addresses at which an instruction starts. -/
def instructionStarts (pool : Pool) (code : Bytes) : Except Error BitSet := do
  let instructions ← (disassemble pool code).complete
  return instructions.foldl (fun starts instruction => starts.insert instruction.address.toNat)
    (BitSet.withCapacity code.length)

/-- Add the addresses that lie inside the code. -/
def mark (length : Nat) (set : BitSet) (addresses : List Nat) : BitSet :=
  addresses.foldl (fun set address => if address < length then set.insert address else set) set

/-- Addresses at which an instruction makes blocks start: its branch targets, and the address behind
it if it branches or does not fall through. -/
def blocksAround (instruction : Instruction) : List Nat :=
  let targets := instruction.branchTargets.map UInt32.toNat
  if targets ≠ [] ∨ instruction.opcode.endsBlock then instruction.nextAddress.toNat :: targets
  else targets

/-- The offsets of a handler that are decided. -/
def handlerOffsets (handler : ExceptionHandler) : List Nat :=
  [handler.start, handler.stop, handler.target].filterMap Location.offset?

/-- Addresses at which a basic block starts: the first one, those that instructions bring about, and
the bounds and targets of exception handlers. Addresses outside the code are left out. -/
def blockStarts (pool : Pool) (code : Bytes) (handlers : List ExceptionHandler) :
    Except Error BitSet := do
  let instructions ← (disassemble pool code).complete
  let blocks := mark code.length (BitSet.withCapacity code.length) [0]
  let blocks := instructions.foldl
    (fun blocks instruction => mark code.length blocks (blocksAround instruction)) blocks
  let bounds := handlers.foldl
    (fun bounds handler => mark code.length bounds (handlerOffsets handler))
    (BitSet.withCapacity code.length)
  return blocks.union bounds

/-- Whether a handler's start and target are starts of instructions, and its end is one or the end
of the code. A location without an offset fits nothing. -/
def isAligned (length : Nat) (starts : BitSet) (handler : ExceptionHandler) : Bool :=
  match handler.start, handler.stop, handler.target with
  | .fixed start, .fixed stop, .fixed target =>
    starts.contains start && (starts.contains stop || stop == length) && starts.contains target
  | _, _, _ => false

/-- Exception handlers that do not fit the instructions, which start at the given addresses. -/
def misalignedHandlers (code : Bytes) (handlers : List ExceptionHandler) (starts : BitSet) :
    List ExceptionHandler :=
  let length := code.length
  handlers.filter fun handler => !isAligned length starts handler

/-- Targets at which no instruction starts, in ascending order. Those inside the code are collected
in a set, those behind it are sorted. -/
def strayAmong (length : Nat) (starts : BitSet) (targets : List Nat) : List Nat :=
  let inside := mark length (BitSet.withCapacity length) targets
  let beyond := targets.filter fun target => length ≤ target
  inside.toList.filter (fun target => !starts.contains target)
    ++ (beyond.mergeSort fun target other => target ≤ other).eraseReps

/-- Branch targets at which no instruction starts, in ascending order. -/
def strayBranchTargets (pool : Pool) (code : Bytes) : Except Error (List UInt32) := do
  let starts ← instructionStarts pool code
  let instructions ← (disassemble pool code).complete
  let targets := (instructions.flatMap Instruction.branchTargets).map UInt32.toNat
  return (strayAmong code.length starts targets).map Nat.toUInt32

end ClassFormat.Flow
