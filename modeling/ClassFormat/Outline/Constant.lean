import ClassFormat.Outline.Basic
import ClassFormat.Pool.Indices
/-!
# Outlines of constants

A constant is shown with its kind, its tag, the number of indices it takes, its value, and the
constants it refers to. The outline of a pool is the list of its constants, each at its index.
-/

namespace ClassFormat

/-- Name of a kind of constant. -/
def Constant.kind : Constant → String
  | utf8 _ => "Utf8"
  | utf16 _ => "Utf16"
  | integer _ => "Integer"
  | float _ => "Float"
  | long _ => "Long"
  | double _ => "Double"
  | classInfo _ => "Class"
  | string _ => "String"
  | fieldRef .. => "FieldRef"
  | methodRef .. => "MethodRef"
  | interfaceMethodRef .. => "InterfaceMethodRef"
  | nameAndType .. => "NameAndType"
  | methodHandle .. => "MethodHandle"
  | methodType _ => "MethodType"
  | dynamic .. => "Dynamic"
  | invokeDynamic .. => "InvokeDynamic"
  | moduleInfo _ => "Module"
  | packageInfo _ => "Package"

/-- Name of a kind of method handle. -/
def HandleKind.name : HandleKind → String
  | getField => "GetField"
  | getStatic => "GetStatic"
  | putField => "PutField"
  | putStatic => "PutStatic"
  | invokeVirtual => "InvokeVirtual"
  | invokeStatic => "InvokeStatic"
  | invokeSpecial => "InvokeSpecial"
  | newInvokeSpecial => "NewInvokeSpecial"
  | invokeInterface => "InvokeInterface"

/-- A handle shown by its index. -/
def Indices.view (indices : Indices) : ConstantView := fun id =>
  .ofExcept (fun (index : UInt16) => index) (indices.indexOf id)

/-- A handle shown by its index in a pool. If the pool has too many constants, that is shown
instead. -/
def Pool.view (pool : Pool) : ConstantView :=
  match pool.resolve with
  | .ok indices => indices.view
  | .error cause => fun _ => .ofError cause

namespace Constant

/-- The fields of a constant that are not references. -/
def valueFields : Constant → List (String × Outline)
  | utf8 text => [("text", text)]
  | utf16 units => [("units", .ofUnits units)]
  | integer value => [("value", value)]
  | float bits => [("bits", bits)]
  | long value => [("value", toString value.toInt)]
  | double bits => [("bits", toString bits.toNat)]
  | methodHandle kind _ => [("handle", kind.number)]
  | dynamic bootstrap _ | invokeDynamic bootstrap _ => [("bootstrap", bootstrap)]
  | _ => []

/-- The references of a constant, if its kind has any. -/
def referenceFields (view : ConstantView) (constant : Constant) : List (String × Outline) :=
  match constant.references with
  | [] => []
  | references => [("refs", .ofList view references)]

def outlineFields (view : ConstantView) (constant : Constant) : List (String × Outline) :=
  ("kind", constant.kind) :: ("tag", constant.tag) :: ("width", width constant)
    :: (constant.valueFields ++ constant.referenceFields view)

def outline (view : ConstantView) (constant : Constant) : Outline :=
  .record (constant.outlineFields view)

end Constant

/-- The constants of a pool in the order of their indices. -/
def Pool.outline (pool : Pool) : Outline :=
  let view := pool.view
  .ofList (fun (index, _, constant) => .record (("index", index) :: constant.outlineFields view))
    pool.toList

end ClassFormat
