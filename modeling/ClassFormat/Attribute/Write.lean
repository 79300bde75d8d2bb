import ClassFormat.Attribute.Basic
/-!
# Writing attributes

A payload is written before the header in front of it, and has to come out as long as it was
declared.
-/

namespace ClassFormat

/-- A sequence behind the number of its elements in two bytes. -/
def encodeSequence {α : Type} (encode : α → Except Error Bytes) (elements : List α) :
    Except Error Bytes := do
  let count ← narrow16 .sequenceLength elements.length
  let bodies ← elements.mapM encode
  return BigEndian.u16 count ++ bodies.flatten

/-- A sequence behind the number of its elements in one byte. -/
def encodeShortSequence {α : Type} (what : Quantity) (encode : α → Except Error Bytes)
    (elements : List α) : Except Error Bytes := do
  let count ← narrow8 what elements.length
  let bodies ← elements.mapM encode
  return BigEndian.u8 count ++ bodies.flatten

def LineNumber.encode (line : LineNumber) : Except Error Bytes := do
  let start ← line.start.narrow .lineNumberStart
  return BigEndian.u16 start ++ BigEndian.u16 line.line

def BootstrapMethod.encode (indices : Indices) (method : BootstrapMethod) : Except Error Bytes := do
  let handle ← indices.encode method.handle
  return handle ++ (← encodeSequence indices.encode method.arguments)

def MethodParameter.encode (indices : Indices) (parameter : MethodParameter) :
    Except Error Bytes := do
  let name ← match parameter.name with
    | none => .ok (BigEndian.u16 0)
    | some name => indices.encode name.id
  return name ++ parameter.flags.encode

/-- Annotations behind their number. -/
def encodeAnnotations (indices : Indices) (annotations : List Annotation) : Except Error Bytes :=
  encodeSequence (fun annotation => annotation.encode indices) annotations

/-- The header of an attribute in front of its payload. -/
def encodeHeader (indices : Indices) (name : Utf8Id) (declared : Nat) : Except Error Bytes := do
  let name ← indices.encode name.id
  return name ++ BigEndian.u32 (← narrow32 .attributeLength declared)

mutual

/-- A payload without its header. -/
def Payload.encode (indices : Indices) : Payload → Except Error Bytes
  | .code body => body.encode indices
  | .exceptions classes => encodeSequence (fun id => indices.encode id.id) classes
  | .localVariables table => table.encode indices
  | .lineNumbers lines => encodeSequence LineNumber.encode lines
  | .constantValue value => indices.encode value
  | .sourceFile name => indices.encode name.id
  | .signature text => indices.encode text.id
  | .bootstrapMethods methods => encodeSequence (BootstrapMethod.encode indices) methods
  | .methodParameters parameters =>
    encodeShortSequence .methodParameters (MethodParameter.encode indices) parameters
  | .annotations _ annotations => encodeAnnotations indices annotations
  | .parameterAnnotations _ parameters =>
    encodeShortSequence .annotatedParameters (encodeAnnotations indices) parameters
  | .unknown data => .ok data

/-- Code that is too long is refused before anything else. -/
def Code.encode (indices : Indices) : Code → Except Error Bytes
  | ⟨maxStack, maxLocals, bytes, handlers, attributes⟩ => do
    let length := bytes.length
    if Code.maxLength < length then throw (.outOfRange .codeLength length)
    let handlers ← encodeSequence (ExceptionHandler.encode indices) handlers
    let count ← narrow16 .sequenceLength attributes.length
    let attributes ← encodeAttributesFrom indices [] attributes
    return BigEndian.u16 maxStack ++ BigEndian.u16 maxLocals ++ BigEndian.encode 4 length ++ bytes
      ++ handlers ++ BigEndian.u16 count ++ attributes

/-- Some attributes behind those already written (last one first). -/
def encodeAttributesFrom (indices : Indices) (written : List Bytes) :
    List Attribute → Except Error Bytes
  | [] => .ok written.reverse.flatten
  | attr :: others => do
    let bytes ← attr.encode indices
    encodeAttributesFrom indices (bytes :: written) others

/-- An attribute with its header. -/
def Attribute.encode (indices : Indices) : Attribute → Except Error Bytes
  | ⟨name, payload⟩ => do
    let data ← payload.encode indices
    let declared := payload.length
    if data.length ≠ declared then
      throw (.attributeLengthMismatch (payload.kind?.elim "unknown" (·.name)) declared data.length)
    return (← encodeHeader indices name declared) ++ data

end

/-- Attributes behind their number. -/
def encodeAttributes (indices : Indices) (attributes : List Attribute) : Except Error Bytes := do
  let count ← narrow16 .sequenceLength attributes.length
  return BigEndian.u16 count ++ (← encodeAttributesFrom indices [] attributes)

end ClassFormat
