import ClassFormat.Bytes
import ClassFormat.Pool.Basic
import ClassFormat.Text.ModifiedUtf8
/-!
# Indices and the written pool

Laying a pool out decides the index of every constant. `Indices` is a snapshot of that decision, and
everything that mentions a constant is written with it; a handle that the snapshot does not know is
refused. The written pool is the number of indices plus one, followed by the constants in layout
order.
-/

namespace ClassFormat

/-- The index of every constant a pool had when it was laid out. -/
structure Indices where
  pool : PoolTag
  /-- Index of each slot. -/
  indices : Array UInt16
  /-- One more than the number of indices in use. -/
  count : UInt16

/-- Index of a constant. -/
def Indices.indexOf (indices : Indices) (id : ConstantId) : Except Error UInt16 :=
  match indices.indices[id.slot]? with
  | some index => if id.pool = indices.pool then .ok index else .error (.foreignConstant id)
  | none => .error (.foreignConstant id)

/-- The two bytes of a constant's index. -/
def Indices.encode (indices : Indices) (id : ConstantId) : Except Error Bytes :=
  BigEndian.u16 <$> indices.indexOf id

/-- Decide the indices of all constants, if there are enough. -/
def Pool.resolve (pool : Pool) : Except Error Indices :=
  if pool.layout.stop < UInt16.size then
    .ok {
      pool := pool.tag
      count := UInt16.ofNat pool.layout.stop
      indices := pool.layout.toList.foldl
        (fun indices (index, slot) => indices.setIfInBounds slot.id.slot (UInt16.ofNat index))
        (Array.replicate pool.size 0) }
  else .error (.poolOverflow (pool.layout.stop - 1))

namespace Constant

/-- Text behind its length in bytes. -/
def encodeText (units : List UInt16) : Except Error Bytes :=
  let bytes := Text.ModifiedUtf8.encode units
  if bytes.length < UInt16.size then .ok (BigEndian.encode 2 bytes.length ++ bytes)
  else .error (.stringTooLong bytes.length)

/-- What follows the tag of a constant. -/
def encodeBody (indices : Indices) : Constant → Except Error Bytes
  | utf8 text => encodeText (Text.Utf16.ofString text)
  | utf16 units => encodeText units
  | integer value => .ok (BigEndian.i32 value)
  | float bits => .ok (BigEndian.u32 bits)
  | long value => .ok (BigEndian.i64 value)
  | double bits => .ok (BigEndian.u64 bits)
  | classInfo name | string name | methodType name | moduleInfo name | packageInfo name =>
    indices.encode name.id
  | fieldRef owner member | methodRef owner member | interfaceMethodRef owner member => do
    return (← indices.encode owner.id) ++ (← indices.encode member.id)
  | nameAndType name descriptor => do
    return (← indices.encode name.id) ++ (← indices.encode descriptor.id)
  | methodHandle kind reference => do
    return BigEndian.u8 kind.number ++ (← indices.encode reference)
  | dynamic bootstrap member | invokeDynamic bootstrap member => do
    return BigEndian.u16 bootstrap ++ (← indices.encode member.id)

/-- A constant with its references as indices. -/
def encode (indices : Indices) (constant : Constant) : Except Error Bytes := do
  return BigEndian.u8 constant.tag ++ (← constant.encodeBody indices)

end Constant

/-- The written pool, and the indices it was laid out with. -/
def Pool.encode (pool : Pool) : Except Error (Bytes × Indices) := do
  let indices ← pool.resolve
  let constants ← pool.toList.mapM fun (_, _, constant) => constant.encode indices
  return (BigEndian.u16 indices.count ++ constants.flatten, indices)

end ClassFormat
