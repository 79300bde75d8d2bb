import ClassFormat.Error
import ClassFormat.Code.Location
/-!
# Notices

Work that goes on in spite of something worth telling leaves notices, in the order in which things
happened. They are part of the answer of an operation, also of one that fails.
-/

namespace ClassFormat

/-- How much is to be told. -/
inductive Verbosity where
  /-- Only what was lost. -/
  | quiet
  /-- What was done, too. -/
  | verbose
deriving DecidableEq, Repr

/-- Something worth telling about an operation. -/
inductive Notice where
  /-- A row of a local variable table was unusable and left out. -/
  | droppedRow (slot : UInt16) (cause : Error)
  /-- The name of a method parameter was unusable and left out. -/
  | droppedParameterName (cause : Error)
  /-- A local variable could not be written and was left out. -/
  | droppedVariable (slot : UInt16) (ranges : List LocationRange)
  | unpairedSurrogates (index : UInt16)
  | readPool (constants distinct : Nat)
  | keptOpaque (name : String) (length : Nat)
  | readClass (name version : String) (fields methods : Nat)
  | countedOpcodes (name : String)
deriving DecidableEq, Repr

namespace Notice

/-- Whether the notice tells of something lost. -/
def isWarning : Notice → Bool
  | droppedRow .. | droppedParameterName _ | droppedVariable .. => true
  | _ => false

/-- Whether the notice is to be told. -/
def isTold (verbosity : Verbosity) (notice : Notice) : Bool :=
  notice.isWarning || verbosity == .verbose

/-- Wording of a notice. -/
def message : Notice → String
  | droppedRow slot cause => s!"dropping local variable row in slot {slot}: {cause.message}"
  | droppedParameterName cause => s!"dropping method parameter name: {cause.message}"
  | droppedVariable slot ranges =>
    let shown := String.intercalate ", " (ranges.map LocationRange.describe)
    s!"dropping local variable in slot {slot} with ranges [{shown}]"
  | unpairedSurrogates index => s!"Utf8 constant #{index} has unpaired surrogates"
  | readPool constants distinct =>
    s!"read constant pool with {constants} constants ({distinct} distinct)"
  | keptOpaque name length => s!"keeping {name} attribute opaque ({length} bytes)"
  | readClass name version fields methods =>
    s!"read class {name} (version {version}, {fields} fields, {methods} methods)"
  | countedOpcodes name => s!"counted opcodes of {name}"

end Notice

/-- An answer with the notices left on the way to it. -/
structure Noted (α : Type) where
  value : α
  /-- Notices in the order in which they arose. -/
  notices : List Notice

end ClassFormat
