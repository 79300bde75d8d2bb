import ClassFormat.AccessFlags
import ClassFormat.Attribute.Annotation
import ClassFormat.Attribute.LocalVariables
import ClassFormat.Code.Handler
/-!
# Attributes

Classes, members and code carry attributes: a name, a length and a payload. The payloads of thirteen
kinds of attributes are understood, and all others are kept as bytes. Code is itself the payload of
an attribute and carries attributes of its own, so attributes nest.
-/

namespace ClassFormat

/-- Whether a running program can see annotations. -/
inductive Visibility where
  | visible
  | invisible
deriving DecidableEq, Repr

/-- Kinds of attributes whose payload is understood. -/
inductive AttributeKind where
  | code
  | exceptions
  | localVariables
  | lineNumbers
  | constantValue
  | sourceFile
  | signature
  | bootstrapMethods
  | methodParameters
  | annotations (visibility : Visibility)
  | parameterAnnotations (visibility : Visibility)
deriving DecidableEq, Repr

namespace AttributeKind

/-- Name by which a kind is known in the file. -/
def name : AttributeKind → String
  | code => "Code"
  | exceptions => "Exceptions"
  | localVariables => "LocalVariableTable"
  | lineNumbers => "LineNumberTable"
  | constantValue => "ConstantValue"
  | sourceFile => "SourceFile"
  | signature => "Signature"
  | bootstrapMethods => "BootstrapMethods"
  | methodParameters => "MethodParameters"
  | annotations .visible => "RuntimeVisibleAnnotations"
  | annotations .invisible => "RuntimeInvisibleAnnotations"
  | parameterAnnotations .visible => "RuntimeVisibleParameterAnnotations"
  | parameterAnnotations .invisible => "RuntimeInvisibleParameterAnnotations"

/-- Every kind. -/
def all : List AttributeKind :=
  [code, exceptions, localVariables, lineNumbers, constantValue, sourceFile, signature,
    bootstrapMethods, methodParameters, annotations .visible, annotations .invisible,
    parameterAnnotations .visible, parameterAnnotations .invisible]

/-- The kind with a name. -/
def ofName? (name : String) : Option AttributeKind := all.find? fun kind => kind.name == name

end AttributeKind

/-- Start of the code of a source line. -/
structure LineNumber where
  start : Location
  line : UInt16
deriving DecidableEq, Repr

/-- How a constant or call site is computed. -/
structure BootstrapMethod where
  handle : ConstantId
  arguments : List ConstantId
deriving DecidableEq, Repr

/-- A parameter of a method. -/
structure MethodParameter where
  /-- Nothing for a parameter without a name. -/
  name : Option Utf8Id
  flags : ParameterFlags
deriving DecidableEq, Repr

mutual

/-- A named payload. -/
structure Attribute where
  name : Utf8Id
  payload : Payload

/-- What an attribute says. -/
inductive Payload where
  | code (body : Code)
  | exceptions (classes : List ClassId)
  | localVariables (table : LocalVariableTable)
  | lineNumbers (lines : List LineNumber)
  | constantValue (value : ConstantId)
  | sourceFile (name : Utf8Id)
  | signature (text : Utf8Id)
  | bootstrapMethods (methods : List BootstrapMethod)
  | methodParameters (parameters : List MethodParameter)
  | annotations (visibility : Visibility) (annotations : List Annotation)
  /-- The annotations of each parameter. -/
  | parameterAnnotations (visibility : Visibility) (parameters : List (List Annotation))
  /-- A payload that is not understood. -/
  | unknown (data : Bytes)

/-- Body of a method. -/
structure Code where
  maxStack : UInt16
  maxLocals : UInt16
  /-- The instructions as bytes. -/
  bytes : Bytes
  handlers : List ExceptionHandler
  attributes : List Attribute

end

namespace Payload

/-- Kind of a payload that is understood. -/
def kind? : Payload → Option AttributeKind
  | code _ => some .code
  | exceptions _ => some .exceptions
  | localVariables _ => some .localVariables
  | lineNumbers _ => some .lineNumbers
  | constantValue _ => some .constantValue
  | sourceFile _ => some .sourceFile
  | signature _ => some .signature
  | bootstrapMethods _ => some .bootstrapMethods
  | methodParameters _ => some .methodParameters
  | annotations visibility _ => some (.annotations visibility)
  | parameterAnnotations visibility _ => some (.parameterAnnotations visibility)
  | unknown _ => none

/-- Name of the kind of a payload. -/
def kindName (payload : Payload) : String :=
  match payload.kind? with
  | some kind => kind.name
  | none => "Unknown"

end Payload

/-- An attribute under the name of its kind, which is added to the pool. -/
def Attribute.ofKind (kind : AttributeKind) (payload : Payload) : StateM Pool Attribute := do
  return ⟨← Pool.addUtf8 kind.name, payload⟩

namespace Code

/-- Largest number of bytes of the instructions. -/
def maxLength : Nat := 65535

/-- The first table of local variables. -/
def localVariables? (code : Code) : Option LocalVariableTable :=
  code.attributes.findSome? fun attr =>
    match attr.payload with
    | .localVariables table => some table
    | _ => none

/-- The first table of line numbers. -/
def lineNumbers? (code : Code) : Option (List LineNumber) :=
  code.attributes.findSome? fun attr =>
    match attr.payload with
    | .lineNumbers lines => some lines
    | _ => none

end Code

/-! ## Lengths -/

/-- Number of bytes of some annotations behind their count. -/
def annotationsLength (annotations : List Annotation) : Nat :=
  annotations.foldl (fun length annotation => length + annotation.length) 2

mutual

/-- Number of bytes of a payload. -/
def Payload.length : Payload → Nat
  | .code body => body.length
  | .exceptions classes => 2 + 2 * classes.length
  | .localVariables table => table.length
  | .lineNumbers lines => 2 + 4 * lines.length
  | .constantValue _ | .sourceFile _ | .signature _ => 2
  | .bootstrapMethods methods =>
    methods.foldl (fun length method => length + (4 + 2 * method.arguments.length)) 2
  | .methodParameters parameters => 1 + 4 * parameters.length
  | .annotations _ annotations => annotationsLength annotations
  | .parameterAnnotations _ parameters =>
    parameters.foldl (fun length annotations => length + annotationsLength annotations) 1
  | .unknown data => data.length

/-- Number of bytes of code as a payload. -/
def Code.length : Code → Nat
  | ⟨_, _, bytes, handlers, attributes⟩ =>
    12 + bytes.length + 8 * handlers.length + attributesLength 0 attributes

/-- Number of bytes of some attributes, on top of those before. -/
def attributesLength (before : Nat) : List Attribute → Nat
  | [] => before
  | attr :: others => attributesLength (before + attr.length) others

/-- Number of bytes of an attribute with its name and length. -/
def Attribute.length : Attribute → Nat
  | ⟨_, payload⟩ => 6 + payload.length

end

/-! ## Labels -/

mutual

/-- Give the locations of a payload their offsets, where the labels are placed. -/
def Payload.resolve (placement : Placement) : Payload → Payload
  | .code body => .code (body.resolve placement)
  | .lineNumbers lines =>
    .lineNumbers (lines.map fun line => { line with start := placement.resolve line.start })
  | .exceptions classes => .exceptions classes
  | .localVariables table => .localVariables table
  | .constantValue value => .constantValue value
  | .sourceFile name => .sourceFile name
  | .signature text => .signature text
  | .bootstrapMethods methods => .bootstrapMethods methods
  | .methodParameters parameters => .methodParameters parameters
  | .annotations visibility annotations => .annotations visibility annotations
  | .parameterAnnotations visibility parameters => .parameterAnnotations visibility parameters
  | .unknown data => .unknown data

/-- Give the locations of handlers and nested attributes their offsets. -/
def Code.resolve (placement : Placement) : Code → Code
  | ⟨maxStack, maxLocals, bytes, handlers, attributes⟩ =>
    ⟨maxStack, maxLocals, bytes, handlers.map (·.resolve placement),
      resolveAttributes placement [] attributes⟩

/-- Some attributes behind those already resolved (last one first). -/
def resolveAttributes (placement : Placement) (resolved : List Attribute) :
    List Attribute → List Attribute
  | [] => resolved.reverse
  | attr :: others =>
    resolveAttributes placement (attr.resolve placement :: resolved) others

def Attribute.resolve (placement : Placement) : Attribute → Attribute
  | ⟨name, payload⟩ => ⟨name, payload.resolve placement⟩

end

end ClassFormat
