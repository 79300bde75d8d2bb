import ClassFormat.Pool.Indices
import ClassFormat.Pool.Read
/-!
# Annotations

An annotation has a type and named elements. The value of an element is a constant, a constant of an
enumeration, a class, another annotation, or an array of values, so values nest. Reading goes at
most `maxNesting` levels below the outermost value and refuses what is deeper; writing has no limit.
-/

namespace ClassFormat

mutual

/-- An annotation on a declaration. -/
structure Annotation where
  /-- Descriptor of the annotation's type. -/
  type : Utf8Id
  elements : List AnnotationElement

/-- A named value of an annotation. -/
structure AnnotationElement where
  name : Utf8Id
  value : ElementValue

/-- Value of an annotation element. -/
inductive ElementValue where
  /-- A number or a string; the tag says which kind. -/
  | constant (tag : UInt8) (value : ConstantId)
  /-- A constant of an enumeration: descriptor of its type, and its name. -/
  | enumConstant (type name : Utf8Id)
  /-- A class by its descriptor. -/
  | classInfo (descriptor : Utf8Id)
  | nested (value : Annotation)
  | array (values : List ElementValue)

end

/-- Levels below the outermost value that reading goes. -/
def maxNesting : Nat := 256

namespace ElementValue

/-- Tags of the values that are not constants: `e`, `c`, `@` and `[`. -/
def enumTag : UInt8 := 0x65
def classTag : UInt8 := 0x63
def annotationTag : UInt8 := 0x40
def arrayTag : UInt8 := 0x5b

/-- Tag of the constant that a value with this tag points at: `B`, `C`, `I`, `S` and `Z` stand for
numbers kept as an integer, `D`, `F` and `J` for the other numbers, `s` for text. -/
def constantTag (tag : UInt8) : Option ConstantTag :=
  match tag with
  | 0x42 | 0x43 | 0x49 | 0x53 | 0x5a => some .integer
  | 0x44 => some .double
  | 0x46 => some .float
  | 0x4a => some .long
  | 0x73 => some .utf8
  | _ => none

/-- First byte of a value. -/
def tag : ElementValue → UInt8
  | constant tag _ => tag
  | enumConstant .. => enumTag
  | classInfo _ => classTag
  | nested _ => annotationTag
  | array _ => arrayTag

end ElementValue

/-! ## Lengths -/

mutual

/-- Number of bytes of a value, with its tag. -/
def ElementValue.length : ElementValue → Nat
  | .constant .. | .classInfo _ => 3
  | .enumConstant .. => 5
  | .nested value => 1 + value.length
  | .array values => 3 + valuesLength 0 values

/-- Number of bytes of some values, on top of those before. -/
def valuesLength (before : Nat) : List ElementValue → Nat
  | [] => before
  | value :: others => valuesLength (before + value.length) others

/-- Number of bytes of an annotation. -/
def Annotation.length : Annotation → Nat
  | ⟨_, elements⟩ => 4 + elementsLength 0 elements

/-- Number of bytes of some elements, on top of those before. -/
def elementsLength (before : Nat) : List AnnotationElement → Nat
  | [] => before
  | element :: others => elementsLength (before + element.length) others

/-- Number of bytes of an element, with its name. -/
def AnnotationElement.length : AnnotationElement → Nat
  | ⟨_, value⟩ => 2 + value.length

end

/-! ## Writing -/

mutual

def ElementValue.encode (indices : Indices) : ElementValue → Except Error Bytes
  | .constant tag value => return BigEndian.u8 tag ++ (← indices.encode value)
  | .enumConstant type name =>
    return BigEndian.u8 ElementValue.enumTag ++ (← indices.encode type.id)
      ++ (← indices.encode name.id)
  | .classInfo descriptor =>
    return BigEndian.u8 ElementValue.classTag ++ (← indices.encode descriptor.id)
  | .nested value =>
    return BigEndian.u8 ElementValue.annotationTag ++ (← value.encode indices)
  | .array values => do
    let count ← narrow16 .sequenceLength values.length
    let values ← encodeValues indices [] values
    return BigEndian.u8 ElementValue.arrayTag ++ BigEndian.u16 count ++ values

/-- Some values behind those already written (last one first). -/
def encodeValues (indices : Indices) (written : List Bytes) :
    List ElementValue → Except Error Bytes
  | [] => .ok written.reverse.flatten
  | value :: others => do
    let bytes ← value.encode indices
    encodeValues indices (bytes :: written) others

def Annotation.encode (indices : Indices) : Annotation → Except Error Bytes
  | ⟨type, elements⟩ => do
    let type ← indices.encode type.id
    let count ← narrow16 .elementCount elements.length
    let elements ← encodeElements indices [] elements
    return type ++ BigEndian.u16 count ++ elements

/-- Some elements behind those already written (last one first). -/
def encodeElements (indices : Indices) (written : List Bytes) :
    List AnnotationElement → Except Error Bytes
  | [] => .ok written.reverse.flatten
  | element :: others => do
    let bytes ← element.encode indices
    encodeElements indices (bytes :: written) others

def AnnotationElement.encode (indices : Indices) : AnnotationElement → Except Error Bytes
  | ⟨name, value⟩ => do
    let name ← indices.encode name.id
    return name ++ (← value.encode indices)

end

/-! ## Reading -/

/-- An annotation whose elements have values as the given reader takes them. -/
def Annotation.readWith (pool : Pool) (value : Reader ElementValue) : Reader Annotation := do
  let type ← pool.readUtf8
  let elements ← Reader.sequence do
    let name ← pool.readUtf8
    return AnnotationElement.mk name (← value)
  return ⟨type, elements⟩

/-- A constant of the kind that the tag asks for. -/
def ElementValue.readConstant (pool : Pool) (tag : UInt8) : Reader ElementValue :=
  match ElementValue.constantTag tag with
  | none => Reader.fail (.invalidElementTag tag)
  | some expected => do
    let index ← Reader.u16
    .constant tag <$> Reader.ofExcept (pool.idWithTag [expected] .elementValue index)

/-- A value that takes at most the given number of levels, itself included. -/
def ElementValue.readWithin (pool : Pool) : Nat → Reader ElementValue
  | 0 => Reader.fail (.outOfRange .nestingDepth (maxNesting + 1))
  | levels + 1 => do
    let tag ← Reader.u8
    if tag = enumTag then
      let type ← pool.readUtf8
      return .enumConstant type (← pool.readUtf8)
    else if tag = classTag then
      return .classInfo (← pool.readUtf8)
    else if tag = annotationTag then
      return .nested (← Annotation.readWith pool (readWithin pool levels))
    else if tag = arrayTag then
      return .array (← Reader.sequence (readWithin pool levels))
    else readConstant pool tag

/-- An outermost value. -/
def ElementValue.read (pool : Pool) : Reader ElementValue :=
  ElementValue.readWithin pool (maxNesting + 1)

/-- An annotation that is not a value of another one. -/
def Annotation.read (pool : Pool) : Reader Annotation :=
  Annotation.readWith pool (ElementValue.read pool)

/-- Annotations behind their number. -/
def readAnnotations (pool : Pool) : Reader (List Annotation) :=
  Reader.sequence <| Annotation.read pool

end ClassFormat
