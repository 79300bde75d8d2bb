import ClassFormat.Constant.Id
import ClassFormat.Error
import ClassFormat.Layout
/-!
# Constants

The constants that a class file can hold. A constant refers to others by their handles, so two
constants of one pool are equal exactly when their tags, values and references are. Text comes in
two forms: a string, or UTF-16 units where no string has them.
-/

namespace ClassFormat

/-- What a method handle does with the member it refers to. -/
inductive HandleKind where
  | getField
  | getStatic
  | putField
  | putStatic
  | invokeVirtual
  | invokeStatic
  | invokeSpecial
  | newInvokeSpecial
  | invokeInterface
deriving DecidableEq, Hashable, Repr

/-- First byte of a constant, which says what kind it is. -/
abbrev ConstantTag := UInt8

namespace ConstantTag

def utf8 : ConstantTag := 1
def integer : ConstantTag := 3
def float : ConstantTag := 4
def long : ConstantTag := 5
def double : ConstantTag := 6
def classInfo : ConstantTag := 7
def string : ConstantTag := 8
def fieldRef : ConstantTag := 9
def methodRef : ConstantTag := 10
def interfaceMethodRef : ConstantTag := 11
def nameAndType : ConstantTag := 12
def methodHandle : ConstantTag := 15
def methodType : ConstantTag := 16
def dynamic : ConstantTag := 17
def invokeDynamic : ConstantTag := 18
def moduleInfo : ConstantTag := 19
def packageInfo : ConstantTag := 20

end ConstantTag

namespace HandleKind

/-- Number of a kind in the file. -/
def number : HandleKind → UInt8
  | getField => 1
  | getStatic => 2
  | putField => 3
  | putStatic => 4
  | invokeVirtual => 5
  | invokeStatic => 6
  | invokeSpecial => 7
  | newInvokeSpecial => 8
  | invokeInterface => 9

/-- The kind with a number. -/
def ofNumber (number : UInt8) : Except Error HandleKind :=
  match number with
  | 1 => .ok getField
  | 2 => .ok getStatic
  | 3 => .ok putField
  | 4 => .ok putStatic
  | 5 => .ok invokeVirtual
  | 6 => .ok invokeStatic
  | 7 => .ok invokeSpecial
  | 8 => .ok newInvokeSpecial
  | 9 => .ok invokeInterface
  | other => .error (.invalidHandleKind other)

/-- Tags of the constants that a handle of this kind may refer to. -/
def referenceTags : HandleKind → List ConstantTag
  | getField | getStatic | putField | putStatic => [.fieldRef]
  | invokeVirtual | newInvokeSpecial => [.methodRef]
  | invokeStatic | invokeSpecial => [.methodRef, .interfaceMethodRef]
  | invokeInterface => [.interfaceMethodRef]

end HandleKind

/-- A constant. Floating point numbers are kept as the bits of their IEEE 754 form. -/
inductive Constant where
  /-- Text that is a string. -/
  | utf8 (text : String)
  /-- Text as UTF-16 units, for surrogates that do not pair up. -/
  | utf16 (units : List UInt16)
  | integer (value : Int32)
  | float (bits : UInt32)
  | long (value : Int64)
  | double (bits : UInt64)
  | classInfo (name : Utf8Id)
  | string (text : Utf8Id)
  | fieldRef (owner : ClassId) (member : NameAndTypeId)
  | methodRef (owner : ClassId) (member : NameAndTypeId)
  | interfaceMethodRef (owner : ClassId) (member : NameAndTypeId)
  | nameAndType (name descriptor : Utf8Id)
  | methodHandle (kind : HandleKind) (reference : ConstantId)
  | methodType (descriptor : Utf8Id)
  /-- A constant computed by a bootstrap method. -/
  | dynamic (bootstrap : UInt16) (member : NameAndTypeId)
  /-- A call site computed by a bootstrap method. -/
  | invokeDynamic (bootstrap : UInt16) (member : NameAndTypeId)
  | moduleInfo (name : Utf8Id)
  | packageInfo (name : Utf8Id)
deriving DecidableEq, Hashable, Repr

namespace Constant

/-- Tag of a constant; both forms of text have the same. -/
def tag : Constant → ConstantTag
  | utf8 _ | utf16 _ => .utf8
  | integer _ => .integer
  | float _ => .float
  | long _ => .long
  | double _ => .double
  | classInfo _ => .classInfo
  | string _ => .string
  | fieldRef .. => .fieldRef
  | methodRef .. => .methodRef
  | interfaceMethodRef .. => .interfaceMethodRef
  | nameAndType .. => .nameAndType
  | methodHandle .. => .methodHandle
  | methodType _ => .methodType
  | dynamic .. => .dynamic
  | invokeDynamic .. => .invokeDynamic
  | moduleInfo _ => .moduleInfo
  | packageInfo _ => .packageInfo

/-- Handles of the constants that this one refers to, in the order of the file. -/
def references : Constant → List ConstantId
  | utf8 _ | utf16 _ | integer _ | float _ | long _ | double _ => []
  | classInfo name | string name | methodType name | moduleInfo name | packageInfo name => [name.id]
  | fieldRef owner member | methodRef owner member | interfaceMethodRef owner member =>
    [owner.id, member.id]
  | nameAndType name descriptor => [name.id, descriptor.id]
  | methodHandle _ reference => [reference]
  | dynamic _ member | invokeDynamic _ member => [member.id]

/-- The constant with every reference replaced, in the order of the file. -/
def mapReferencesM {m : Type → Type} [Monad m] (replace : ConstantId → m ConstantId) :
    Constant → m Constant
  | classInfo name => return classInfo ⟨← replace name.id⟩
  | string text => return string ⟨← replace text.id⟩
  | fieldRef owner member => return fieldRef ⟨← replace owner.id⟩ ⟨← replace member.id⟩
  | methodRef owner member => return methodRef ⟨← replace owner.id⟩ ⟨← replace member.id⟩
  | interfaceMethodRef owner member =>
    return interfaceMethodRef ⟨← replace owner.id⟩ ⟨← replace member.id⟩
  | nameAndType name descriptor =>
    return nameAndType ⟨← replace name.id⟩ ⟨← replace descriptor.id⟩
  | methodHandle kind reference => return methodHandle kind (← replace reference)
  | methodType descriptor => return methodType ⟨← replace descriptor.id⟩
  | dynamic bootstrap member => return dynamic bootstrap ⟨← replace member.id⟩
  | invokeDynamic bootstrap member => return invokeDynamic bootstrap ⟨← replace member.id⟩
  | moduleInfo name => return moduleInfo ⟨← replace name.id⟩
  | packageInfo name => return packageInfo ⟨← replace name.id⟩
  | constant => return constant

/-- A `long` or `double` takes two indices. -/
instance : Wide Constant where
  width
    | long _ | double _ => 2
    | _ => 1

end Constant

end ClassFormat
