import ClassFormat.Attribute.Read
import ClassFormat.Attribute.Write
/-!
# Fields and methods

Both are members of a class and look the same in a file: flags, a name, a descriptor and attributes.
They differ in what their flags and descriptors mean.
-/

namespace ClassFormat

/-- A field or a method. -/
structure Member (carrier : FlagCarrier) where
  flags : AccessFlags carrier
  name : Utf8Id
  descriptor : Utf8Id
  attributes : List Attribute

abbrev Field := Member .ofField
abbrev Method := Member .ofMethod

namespace Member

variable {carrier : FlagCarrier}

def encode (indices : Indices) (part : Member carrier) : Except Error Bytes := do
  let name ← indices.encode part.name.id
  let descriptor ← indices.encode part.descriptor.id
  let attributes ← encodeAttributes indices part.attributes
  return part.flags.encode ++ name ++ descriptor ++ attributes

def read (pool : Pool) : Reader (Member carrier) := do
  let flags ← AccessFlags.read
  let name ← pool.readUtf8
  let descriptor ← pool.readUtf8
  let attributes ← readAttributes pool
  return ⟨flags, name, descriptor, attributes⟩

end Member

namespace Field

/-- Initial value of a constant field. -/
def constantValue? (field : Field) : Option ConstantId :=
  field.attributes.findSome? fun attr =>
    match attr.payload with
    | .constantValue value => some value
    | _ => none

def type (pool : Pool) (field : Field) : Except Error FieldType := do
  FieldType.parse (← pool.text field.descriptor)

end Field

namespace Method

/-- Body of the method, which an abstract or native one has not. -/
def code? (method : Method) : Option Code :=
  method.attributes.findSome? fun attr =>
    match attr.payload with
    | .code body => some body
    | _ => none

/-- Classes of the exceptions that the method declares. -/
def exceptions? (method : Method) : Option (List ClassId) :=
  method.attributes.findSome? fun attr =>
    match attr.payload with
    | .exceptions classes => some classes
    | _ => none

def type (pool : Pool) (method : Method) : Except Error MethodType := do
  MethodType.parse (← pool.text method.descriptor)

/-- The attributes with the first body changed. -/
def changeFirstCode (change : Code → Code) : List Attribute → List Attribute
  | [] => []
  | attr :: others =>
    match attr.payload with
    | .code body => ⟨attr.name, .code (change body)⟩ :: others
    | _ => attr :: changeFirstCode change others

/-- Give the locations in the method's body their offsets, where the labels are placed. -/
def resolveCode (placement : Placement) (method : Method) : Method :=
  { method with attributes := changeFirstCode (·.resolve placement) method.attributes }

end Method

end ClassFormat
