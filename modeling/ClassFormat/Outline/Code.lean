import ClassFormat.Code.Flow
import ClassFormat.Descriptor
import ClassFormat.Outline.Collection
import ClassFormat.Outline.Constant
/-!
# Outlines of types, places and code

A type is shown by the letter of a base type, by the name of a class, or by the number of dimensions
of an array and the type inside all of them; its details are its slots and its descriptor. A
location is shown by its offset, or by the name of its label.
-/

namespace ClassFormat

/-! ## Types -/

/-- The slots that values of a base type take, and its descriptor. -/
def BaseType.details (type : BaseType) : Outline :=
  .record [("width", (width type : Nat)), ("render", type.render)]

namespace FieldType

/-- The type inside all array dimensions, with their number on top of those before. -/
def insideArrays (dimensions : Nat) : FieldType → Nat × FieldType
  | array element => insideArrays (dimensions + 1) element
  | type => (dimensions, type)

/-- A type that is no array. -/
def scalarOutline : FieldType → Outline
  | base type => type.render
  | object className => .record [("object", className)]
  | array _ => .nothing

def outline (type : FieldType) : Outline :=
  match type.insideArrays 0 with
  | (0, scalar) => scalar.scalarOutline
  | (dimensions, scalar) => .record [("dims", dimensions), ("of", scalar.scalarOutline)]

/-- A type with the slots that its values take and its descriptor. -/
def details (type : FieldType) : Outline :=
  .record
    [("type", type.outline), ("width", (width type : Nat)), ("double", type.isDoubleWord),
      ("render", type.render)]

end FieldType

def MethodType.outline (type : MethodType) : Outline :=
  .record
    [("parameters", .ofList FieldType.outline type.parameters),
      ("return", .ofOption FieldType.outline type.result),
      ("static_length", type.parameterLength false),
      ("instance_length", type.parameterLength true), ("render", type.render)]

/-- What parsing a whole text comes to, the descriptor of the type that a scan finds at its front,
and the rest that the scan leaves. -/
def Outline.ofScan {α : Type} (outline : α → Outline) (render : α → String)
    (parsed : Except Error α) (scanned : Option α × List Char) : Outline :=
  .record
    [("whole", .ofExcept outline parsed),
      ("partial", .ofOption (fun value => render value) scanned.1),
      ("rest", String.ofList scanned.2)]

/-- What a text comes to as the descriptor of a base type. -/
def BaseType.outlineText (text : String) : Outline :=
  .ofScan details render (parse text) (scan text.toList)

/-- What a text comes to as the descriptor of a type. -/
def FieldType.outlineText (text : String) : Outline :=
  .ofScan details render (parse text) (scan text.toList)

/-- What a text comes to as the descriptor of a method type. -/
def MethodType.outlineText (text : String) : Outline :=
  .ofScan outline render (parse text) (scan text.toList)

/-! ## Places -/

def Location.outline : Location → Outline
  | fixed offset => offset
  | pending label => label.describe

def Span.outline (span : Span) : Outline := .list [span.start, span.stop]

def LocationRange.outline (range : LocationRange) : Outline :=
  .list [range.start.outline, range.stop.outline]

def ExceptionHandler.outline (view : ConstantView) (handler : ExceptionHandler) : Outline :=
  .record
    [("start", handler.start.outline), ("end", handler.stop.outline),
      ("handler", handler.target.outline),
      ("catch", .ofOption (fun id => view id.id) handler.catchType)]

/-! ## Instructions -/

namespace Operands

/-- The index of a constant, and the tag of the constant there. -/
def constantFields (pool : Pool) (index : UInt16) (id : Option ConstantId) :
    List (String × Outline) :=
  let tag := id >>= fun id => (pool.constant id).toOption.map Constant.tag
  [("index", index), ("tag", .ofOption (fun (tag : UInt8) => tag) tag)]

/-- Name of a shape of operands, and the fields it has. -/
def shape (pool : Pool) : Operands → String × List (String × Outline)
  | nothing => ("None", [])
  | constant index id => ("Constant", constantFields pool index id)
  | interfaceCall index id count =>
    ("InvokeInterface", ("count", count) :: constantFields pool index id)
  | dynamicCall index id => ("InvokeDynamic", constantFields pool index id)
  | multiArray index id dimensions =>
    ("MultiANewArray", ("dimensions", dimensions) :: constantFields pool index id)
  | localSlot slot => ("Local", [("slot", slot)])
  | increment slot delta => ("Increment", [("slot", slot), ("delta", delta)])
  | branch offset => ("Branch", [("offset", offset)])
  | immediate value => ("Immediate", [("value", value)])
  | arrayType code => ("ArrayType", [("value", code)])
  | tableSwitch otherwise low high offsets =>
    ("TableSwitch", [("default", otherwise), ("low", low), ("high", high),
      ("offsets", .ofList (fun (offset : Int32) => offset) offsets)])
  | lookupSwitch otherwise pairs =>
    ("LookupSwitch", [("default", otherwise),
      ("pairs", .ofList (fun ((key, offset) : Int32 × Int32) => .list [key, offset]) pairs)])

def outline (pool : Pool) (operands : Operands) : Outline :=
  let (name, fields) := operands.shape pool
  .record (("shape", name) :: fields)

end Operands

def Opcode.outlineFields (opcode : Opcode) : List (String × Outline) :=
  [("byte", opcode.byte), ("mnemonic", opcode.mnemonic), ("defined", opcode.isDefined),
    ("widenable", opcode.isWidenable), ("ends_block", opcode.endsBlock)]

def Instruction.outline (pool : Pool) (instruction : Instruction) : Outline :=
  .record
    [("address", instruction.address), ("opcode", instruction.opcode.byte),
      ("wide", instruction.isWide), ("length", instruction.length),
      ("mnemonic", instruction.opcode.mnemonic), ("next", instruction.nextAddress),
      ("targets", .ofAddresses instruction.branchTargets),
      ("operands", instruction.operands.outline pool)]

/-- The instructions of a walk, with the failure behind them, and where it ended. -/
def Disassembly.outline (pool : Pool) (disassembly : Disassembly) : Outline :=
  let instructions := disassembly.instructions.map (Instruction.outline pool)
  .record
    [("instructions", .list (instructions ++ disassembly.failure.toList.map .ofError)),
      ("address", disassembly.stop.address), ("more", (disassembly.stop.next? pool).isSome)]

/-- What is known about the addresses of some code. Handlers that do not fit it are shown by their
positions. -/
def Flow.outline (pool : Pool) (code : Bytes) (handlers : List ExceptionHandler) : Outline :=
  let starts := instructionStarts pool code
  let length := code.length
  let misaligned (starts : BitSet) : List Nat :=
    handlers.zipIdx.filterMap fun (handler, position) =>
      if isAligned length starts handler then none else some position
  .record
    [("starts", .ofExcept BitSet.outline starts),
      ("blocks", .ofExcept BitSet.outline (blockStarts pool code handlers)),
      ("misaligned", .ofOption .ofNats (starts.toOption.map misaligned)),
      ("stray", .ofExcept .ofAddresses (strayBranchTargets pool code))]

end ClassFormat
