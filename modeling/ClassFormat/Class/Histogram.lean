import ClassFormat.Class.Basic
import ClassFormat.Instruction.Walk
/-!
# Histograms of opcodes

How often each opcode occurs in any number of methods. Widened instructions are counted apart from
plain ones and listed behind them. Where code cannot be read to its end, the instructions in front
of the failure are counted all the same. Counts take 64 bits, which no number of instructions uses
up; here they have no bound.
-/

namespace ClassFormat

/-- Counts of the opcodes: 256 plain ones, then 256 widened ones. -/
structure Histogram where
  counts : Vector Nat 512

namespace Histogram

def empty : Histogram := ⟨Vector.replicate 512 0⟩

/-- Place of an opcode among the counts. -/
def slot (opcode : Opcode) (isWide : Bool) : Fin 512 :=
  ⟨(if isWide then 256 else 0) + opcode.byte.toNat, by
    have h := opcode.byte.toNat_lt
    split <;> omega⟩

/-- How often an opcode was counted. -/
def get (histogram : Histogram) (opcode : Opcode) (isWide : Bool) : Nat :=
  histogram.counts[slot opcode isWide]

/-- Count an instruction. -/
def count (histogram : Histogram) (instruction : Instruction) : Histogram :=
  let slot := slot instruction.opcode instruction.isWide
  ⟨histogram.counts.set slot (histogram.counts[slot] + 1)⟩

/-- Count the instructions of some code, and say why it cannot be read to its end. -/
def countCode (histogram : Histogram) (pool : Pool) (code : Bytes) : Option Error × Histogram :=
  let disassembly := disassemble pool code
  (disassembly.failure, disassembly.instructions.foldl count histogram)

/-- Count the bodies of some methods, up to the first one that cannot be read to its end. -/
def countMethods (pool : Pool) (histogram : Histogram) : List Method → Option Error × Histogram
  | [] => (none, histogram)
  | method :: others =>
    match method.code? with
    | none => countMethods pool histogram others
    | some code =>
      match histogram.countCode pool code.bytes with
      | (none, histogram) => countMethods pool histogram others
      | (some cause, histogram) => (some cause, histogram)

/-- Count the methods of a class, and tell so by its name. The name is looked up only if the notice
is told. -/
def countClass (verbosity : Verbosity) (histogram : Histogram) (file : ClassFile) :
    Noted (Option Error × Histogram) :=
  match countMethods file.constants histogram file.methods, verbosity with
  | (none, histogram), .verbose =>
    match file.name with
    | .ok name => ⟨(none, histogram), [.countedOpcodes name]⟩
    | .error cause => ⟨(some cause, histogram), []⟩
  | counted, _ => ⟨counted, []⟩

/-- Number of instructions counted. -/
def total (histogram : Histogram) : Nat := histogram.counts.foldl (· + ·) 0

/-- The opcodes that were counted, plain ones first, each with whether it is widened and
how often. -/
def toList (histogram : Histogram) : List (Opcode × Bool × Nat) :=
  (List.finRange 512).filterMap fun (slot : Fin 512) =>
    let count := histogram.counts[slot]
    if count = 0 then none else some (⟨UInt8.ofNat slot.val⟩, decide (256 ≤ slot.val), count)

/-- One line of the histogram. -/
def renderLine (opcode : Opcode) (isWide : Bool) (count : Nat) : String :=
  let wide := if isWide then "wide " else ""
  s!"{wide}{opcode.mnemonic}\t{count}\n"

/-- A line for each opcode that was counted. -/
def render (histogram : Histogram) : String :=
  String.join (histogram.toList.map fun (opcode, isWide, count) => renderLine opcode isWide count)

end Histogram

end ClassFormat
