import ClassFormat.Attribute.Basic
/-!
# Reading attributes

The payload of an attribute is taken off the input whole before its name is looked up. If its kind
is understood, the payload is read by itself and has to be used up.

Code holds attributes whose payloads lie inside its own, so they are shorter. That is why the length
of a payload bounds how deep attributes nest in it.
-/

namespace ClassFormat

/-- Read the payload of an attribute by itself. It has to be used up. -/
def Reader.within {α : Type} (name : String) (data : Bytes) (reader : Reader α) : Reader α :=
  fun input =>
    match reader data with
    | ⟨.ok (value, rest), notices⟩ =>
      if rest = [] then ⟨.ok (value, input), notices⟩
      else
        ⟨.error (.attributeLengthMismatch name data.length (data.length - rest.length)), notices⟩
    | ⟨.error cause, notices⟩ => ⟨.error cause, notices⟩

def LineNumber.read : Reader LineNumber := do
  let start ← Reader.u16
  let line ← Reader.u16
  return ⟨.fixed start.toNat, line⟩

/-- A method handle and its arguments. -/
def BootstrapMethod.read (pool : Pool) : Reader BootstrapMethod := do
  let index ← Reader.u16
  let handle ← Reader.ofExcept (pool.idWithTag [.methodHandle] .methodHandle index)
  return ⟨handle, ← Reader.sequence pool.readId⟩

/-- The name at an index, if there is one. A name that is of no use is left out with a notice. -/
def MethodParameter.readName (pool : Pool) : Reader (Option Utf8Id) := do
  let index ← Reader.u16
  if index = 0 then return none
  match pool.utf8At index with
  | .ok name => return some name
  | .error cause =>
    Reader.note (.droppedParameterName cause)
    return none

def MethodParameter.read (pool : Pool) : Reader MethodParameter := do
  let name ← MethodParameter.readName pool
  return ⟨name, ← AccessFlags.read⟩

/-- A number or a string. -/
def readConstantValue (pool : Pool) : Reader ConstantId := do
  let index ← Reader.u16
  Reader.ofExcept
    (pool.idWithTag [.integer, .float, .long, .double, .string] .constantValue index)

/-- Code whose attributes are taken by the given reader. -/
def Code.read (pool : Pool) (nested : Reader Attribute) : Reader Code := do
  let maxStack ← Reader.u16
  let maxLocals ← Reader.u16
  let length ← Reader.u32
  let bytes ← Reader.block length.toNat
  let handlers ← Reader.sequence (ExceptionHandler.read pool)
  let attributes ← Reader.sequence nested
  return ⟨maxStack, maxLocals, bytes, handlers, attributes⟩

/-- The payload of a kind of attribute; attributes inside it are taken by the given reader. -/
def Payload.read (pool : Pool) (nested : Reader Attribute) : AttributeKind → Reader Payload
  | .code => .code <$> Code.read pool nested
  | .exceptions => .exceptions <$> Reader.sequence pool.readClass
  | .localVariables => .localVariables <$> LocalVariableTable.read pool
  | .lineNumbers => .lineNumbers <$> Reader.sequence LineNumber.read
  | .constantValue => .constantValue <$> readConstantValue pool
  | .sourceFile => .sourceFile <$> pool.readUtf8
  | .signature => .signature <$> pool.readUtf8
  | .bootstrapMethods => .bootstrapMethods <$> Reader.sequence (BootstrapMethod.read pool)
  | .methodParameters => .methodParameters <$> Reader.shortSequence (MethodParameter.read pool)
  | .annotations visibility =>
    .annotations visibility <$> readAnnotations pool
  | .parameterAnnotations visibility =>
    .parameterAnnotations visibility <$> Reader.shortSequence (readAnnotations pool)

/-- An attribute; those inside a payload of a given length are taken by the reader for that
length. -/
def Attribute.readWith (pool : Pool) (nested : Nat → Reader Attribute) : Reader Attribute := do
  let name ← pool.readUtf8
  let length ← Reader.u32
  let data ← Reader.block length.toNat
  let text ← Reader.ofExcept (pool.text name)
  match AttributeKind.ofName? text with
  | some kind =>
    return ⟨name, ← (Payload.read pool (nested length.toNat) kind).within kind.name data⟩
  | none =>
    Reader.note (.keptOpaque text length.toNat)
    return ⟨name, .unknown data⟩

/-- An attribute off an input of at most so many bytes; those inside its payload have fewer. Where
there are no bytes, there is no number to start with. -/
def Attribute.readWithin (pool : Pool) : Nat → Reader Attribute
  | 0 => Reader.fail (.endOfInput .number)
  | size + 1 => Attribute.readWith pool fun _ => Attribute.readWithin pool size

/-- An attribute. -/
def Attribute.read (pool : Pool) : Reader Attribute :=
  Attribute.readWith pool (Attribute.readWithin pool)

/-- Attributes behind their number. -/
def readAttributes (pool : Pool) : Reader (List Attribute) :=
  Reader.sequence (Attribute.read pool)

end ClassFormat
