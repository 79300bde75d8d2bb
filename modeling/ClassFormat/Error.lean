import ClassFormat.Constant.Id
import ClassFormat.Text.Hexadecimal
import ClassFormat.Text.Quoted
/-!
# Causes of failure

Every operation that can fail says why by a value of `Error`. The wording of each cause is in
`Error.message` alone.
-/

namespace ClassFormat

/-- What a reader was after when its input ended. -/
inductive Shortfall where
  /-- The bytes of a number. -/
  | number
  /-- A block of bytes whose length was given. -/
  | block
deriving DecidableEq, Repr

/-- Name of a number or location that has to fit a field of the format. -/
structure Quantity where
  label : String
deriving DecidableEq, Repr

namespace Quantity

def sequenceLength : Quantity := ⟨"sequence length"⟩
def attributeLength : Quantity := ⟨"attribute length"⟩
def codeLength : Quantity := ⟨"code length"⟩
def handlerStart : Quantity := ⟨"exception handler start"⟩
def handlerEnd : Quantity := ⟨"exception handler end"⟩
def handlerTarget : Quantity := ⟨"exception handler"⟩
def lineNumberStart : Quantity := ⟨"line number start"⟩
def localVariableRows : Quantity := ⟨"local variable table length"⟩
def localVariableStart : Quantity := ⟨"local variable start"⟩
def localVariableLength : Quantity := ⟨"local variable length"⟩
def nestingDepth : Quantity := ⟨"annotation nesting depth"⟩
def elementCount : Quantity := ⟨"annotation element count"⟩
def annotatedParameters : Quantity := ⟨"annotated parameter count"⟩
def methodParameters : Quantity := ⟨"method parameter count"⟩
def poolCount : Quantity := ⟨"constant pool count"⟩

end Quantity

/-- Kind of constant that has to stand at an index. -/
inductive ConstantRole where
  | utf8
  | classInfo
  | nameAndType
  | memberReference
  | constantValue
  | methodHandle
  | elementValue
deriving DecidableEq, Repr

def ConstantRole.describe : ConstantRole → String
  | utf8 => "Utf8"
  | classInfo => "Class"
  | nameAndType => "NameAndType"
  | memberReference => "member reference"
  | constantValue => "constant value"
  | methodHandle => "MethodHandle"
  | elementValue => "element value constant"

/-- Why an operation failed. -/
inductive Error where
  /-- The input ends too early. -/
  | endOfInput (wanted : Shortfall)
  /-- A file cannot be read at all. -/
  | unreadable (reason : String)
  /-- The file does not start with the magic number. -/
  | badMagic (magic : UInt32)
  /-- Bytes are left over after the end of the class. -/
  | trailingBytes (count : Nat)
  | invalidConstantTag (index : UInt16) (tag : UInt8)
  | invalidModifiedUtf8 (index : UInt16)
  /-- A text constant holds surrogates that do not pair up, so it is not a string. -/
  | unpairedSurrogates (id : ConstantId)
  | invalidHandleKind (kind : UInt8)
  /-- An index points at nothing or at a constant of another kind. -/
  | badConstantReference (index : UInt16) (expected : ConstantRole)
  /-- A payload was not used up by its decoding, or was written with another length
  than declared. -/
  | attributeLengthMismatch (name : String) (declared actual : Nat)
  | invalidElementTag (tag : UInt8)
  | badDescriptor (text : String)
  | invalidOpcode (address : UInt32) (opcode : UInt8)
  /-- The wide prefix stands before an opcode that has no wide form. -/
  | invalidWideOpcode (address : UInt32) (opcode : UInt8)
  | truncatedInstruction (address : UInt32) (opcode : UInt8)
  /-- A table switch with its bounds reversed, or a lookup switch with a negative count. -/
  | invalidSwitch (address : UInt32)
  | invalidConstantIndex (index : UInt16)
  /-- A value does not fit the field that has to hold it. -/
  | valueOutOfRange (what : Quantity) (value : Int)
  /-- The pool needs more indices than there are. -/
  | poolOverflow (slots : Nat)
  | stringTooLong (length : Nat)
  /-- The constant was read from a file and cannot be moved to the front. -/
  | fixedConstantIndex (id : ConstantId)
  /-- A location had no offset yet when it was written. -/
  | unresolvedLocation (what : Quantity)
  /-- The constant belongs to another pool. -/
  | foreignConstant (id : ConstantId)
deriving DecidableEq, Repr

/-- Name of a kind of cause, for programs that sort failures. -/
def Error.name : Error → String
  | endOfInput _ | unreadable _ => "IoError"
  | badMagic _ => "BadMagic"
  | trailingBytes _ => "TrailingBytes"
  | invalidConstantTag .. => "InvalidConstantTag"
  | invalidModifiedUtf8 _ => "InvalidModifiedUtf8"
  | unpairedSurrogates _ => "UnpairedSurrogates"
  | invalidHandleKind _ => "InvalidHandleKind"
  | badConstantReference .. => "BadConstantReference"
  | attributeLengthMismatch .. => "AttributeLengthMismatch"
  | invalidElementTag _ => "InvalidElementTag"
  | badDescriptor _ => "BadDescriptor"
  | invalidOpcode .. => "InvalidOpcode"
  | invalidWideOpcode .. => "InvalidWideOpcode"
  | truncatedInstruction .. => "TruncatedInstruction"
  | invalidSwitch _ => "InvalidSwitch"
  | invalidConstantIndex _ => "InvalidConstantIndex"
  | valueOutOfRange .. => "ValueOutOfRange"
  | poolOverflow _ => "ConstantPoolOverflow"
  | stringTooLong _ => "StringTooLong"
  | fixedConstantIndex _ => "FixedConstantIndex"
  | unresolvedLocation _ => "UnresolvedLocation"
  | foreignConstant _ => "ForeignConstant"

open Text in
/-- Wording of a cause. -/
def Error.message : Error → String
  | endOfInput .number => "I/O error: failed to fill whole buffer"
  | endOfInput .block => "I/O error: unexpected end of file"
  | unreadable reason => s!"I/O error: {reason}"
  | badMagic magic => s!"bad class file magic {Hexadecimal.padded 8 magic.toNat}"
  | trailingBytes count => s!"{count} bytes after the end of the class"
  | invalidConstantTag index tag => s!"constant #{index} has invalid tag {tag}"
  | invalidModifiedUtf8 index => s!"constant #{index} is not valid modified UTF-8"
  | unpairedSurrogates id => s!"constant {id.describe} holds unpaired surrogates"
  | invalidHandleKind kind => s!"invalid method handle kind {kind}"
  | badConstantReference index expected =>
    s!"constant #{index} is not a valid {expected.describe} constant"
  | attributeLengthMismatch name declared actual =>
    s!"attribute {name} declares {declared} bytes but has {actual}"
  | invalidElementTag tag =>
    s!"invalid annotation element tag {quotedChar (Char.ofNat tag.toNat)}"
  | badDescriptor text => s!"bad type descriptor {quotedString text}"
  | invalidOpcode address opcode =>
    s!"invalid opcode {Hexadecimal.padded 2 opcode.toNat} at address {address}"
  | invalidWideOpcode address opcode =>
    s!"opcode {Hexadecimal.padded 2 opcode.toNat} at address {address} has no wide form"
  | truncatedInstruction address opcode =>
    s!"instruction {Hexadecimal.padded 2 opcode.toNat} at address {address} "
      ++ "runs past the end of the code"
  | invalidSwitch address => s!"malformed switch instruction at address {address}"
  | invalidConstantIndex index => s!"no constant at index {index}"
  | valueOutOfRange what value => s!"value for {what.label} out of valid range: {value}"
  | poolOverflow slots => s!"constant pool needs {slots} slots (at most 65535)"
  | stringTooLong length => s!"encoded string is {length} bytes (at most 65535)"
  | fixedConstantIndex id =>
    s!"constant {id.describe} was read from a class file and keeps its index"
  | unresolvedLocation what => s!"location for {what.label} is unresolved"
  | foreignConstant id => s!"constant {id.describe} is not registered in this pool"

/-! ## Narrowing -/

/-- A value refused by a field, as a signed 64-bit number. -/
def Error.outOfRange (what : Quantity) (value : Nat) : Error :=
  .valueOutOfRange what (Int.bmod value UInt64.size)

/-- A number as two unsigned bytes can hold it. -/
def narrow16 (what : Quantity) (value : Nat) : Except Error UInt16 :=
  if value < UInt16.size then .ok (UInt16.ofNat value) else .error (.outOfRange what value)

/-- A number as four unsigned bytes can hold it. -/
def narrow32 (what : Quantity) (value : Nat) : Except Error UInt32 :=
  if value < UInt32.size then .ok (UInt32.ofNat value) else .error (.outOfRange what value)

/-- A number as one unsigned byte can hold it. -/
def narrow8 (what : Quantity) (value : Nat) : Except Error UInt8 :=
  if value < UInt8.size then .ok (UInt8.ofNat value) else .error (.outOfRange what value)

end ClassFormat
