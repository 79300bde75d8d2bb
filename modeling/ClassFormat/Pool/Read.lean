import ClassFormat.Pool.Basic
import ClassFormat.Reader
import ClassFormat.Text.ModifiedUtf8
/-!
# Reading a pool

A constant in a file refers to others by index, and may refer to ones that come later. So a pool is
read in two passes: the first takes the constants off the input with their references still as
indices and notes which constant is found at which index, the second turns the indices into handles.

Every constant of the file gets a slot of its own, equal ones too, in the order of the file. That is
why a pool that was read is written back as the same bytes.
-/

namespace ClassFormat

/-- A constant whose references are still indices. -/
inductive RawConstant where
  /-- A constant without references. -/
  | leaf (constant : Constant)
  | classInfo (name : UInt16)
  | string (text : UInt16)
  | fieldRef (owner member : UInt16)
  | methodRef (owner member : UInt16)
  | interfaceMethodRef (owner member : UInt16)
  | nameAndType (name descriptor : UInt16)
  | methodHandle (kind : HandleKind) (reference : UInt16)
  | methodType (descriptor : UInt16)
  | dynamic (bootstrap member : UInt16)
  | invokeDynamic (bootstrap member : UInt16)
  | moduleInfo (name : UInt16)
  | packageInfo (name : UInt16)

namespace RawConstant

def tag : RawConstant → ConstantTag
  | leaf constant => constant.tag
  | classInfo _ => .classInfo
  | string _ => .string
  | fieldRef .. => .fieldRef
  | methodRef .. => .methodRef
  | interfaceMethodRef .. => .interfaceMethodRef
  | nameAndType .. => .nameAndType
  | methodHandle .. => .methodHandle
  | methodType _ => .methodType
  | dynamic .. => .dynamic
  | invokeDynamic .. => .invokeDynamic
  | moduleInfo _ => .moduleInfo
  | packageInfo _ => .packageInfo

instance : Wide RawConstant where
  width
    | leaf constant => width constant
    | _ => 1

/-- Text becomes a string if its surrogates pair up, and stays as units otherwise. -/
def readText (index : UInt16) : Reader RawConstant := do
  let length ← Reader.u16
  let bytes ← Reader.block length.toNat
  match Text.ModifiedUtf8.decode bytes with
  | none => Reader.fail (.invalidModifiedUtf8 index)
  | some units =>
    match Text.Utf16.toString? units with
    | some text => return leaf (.utf8 text)
    | none =>
      Reader.note (.unpairedSurrogates index)
      return leaf (.utf16 units)

/-- Two indices, or a number and an index. -/
def readPair (make : UInt16 → UInt16 → RawConstant) : Reader RawConstant := do
  let first ← Reader.u16
  let second ← Reader.u16
  return make first second

/-- The constant at an index. -/
def read (index : UInt16) : Reader RawConstant := do
  let tag ← Reader.u8
  match tag with
  | 1 => readText index
  | 3 => leaf <$> Constant.integer <$> Reader.i32
  | 4 => leaf <$> Constant.float <$> Reader.u32
  | 5 => leaf <$> Constant.long <$> Reader.i64
  | 6 => leaf <$> Constant.double <$> Reader.u64
  | 7 => classInfo <$> Reader.u16
  | 8 => string <$> Reader.u16
  | 9 => readPair fieldRef
  | 10 => readPair methodRef
  | 11 => readPair interfaceMethodRef
  | 12 => readPair nameAndType
  | 15 => do
    -- The kind is judged before the index behind it is read.
    let kind ← Reader.u8
    let kind ← Reader.ofExcept (HandleKind.ofNumber kind)
    methodHandle kind <$> Reader.u16
  | 16 => methodType <$> Reader.u16
  | 17 => readPair dynamic
  | 18 => readPair invokeDynamic
  | 19 => moduleInfo <$> Reader.u16
  | 20 => packageInfo <$> Reader.u16
  | _ => Reader.fail (.invalidConstantTag index tag)

/-- Finds the constant at an index, if its tag is among the given ones. -/
abbrev Lookup : Type := List ConstantTag → ConstantRole → UInt16 → Except Error ConstantId

def resolveUtf8 (lookup : Lookup) (index : UInt16) : Except Error Utf8Id :=
  Utf8Id.mk <$> lookup [.utf8] .utf8 index

def resolveClass (lookup : Lookup) (index : UInt16) : Except Error ClassId :=
  ClassId.mk <$> lookup [.classInfo] .classInfo index

def resolveMember (lookup : Lookup) (index : UInt16) : Except Error NameAndTypeId :=
  NameAndTypeId.mk <$> lookup [.nameAndType] .nameAndType index

/-- Turn the indices of a constant into handles. -/
def resolve (lookup : Lookup) : RawConstant → Except Error Constant
  | leaf constant => .ok constant
  | classInfo name => return .classInfo (← resolveUtf8 lookup name)
  | string text => return .string (← resolveUtf8 lookup text)
  | fieldRef owner member =>
    return .fieldRef (← resolveClass lookup owner) (← resolveMember lookup member)
  | methodRef owner member =>
    return .methodRef (← resolveClass lookup owner) (← resolveMember lookup member)
  | interfaceMethodRef owner member =>
    return .interfaceMethodRef (← resolveClass lookup owner) (← resolveMember lookup member)
  | nameAndType name descriptor =>
    return .nameAndType (← resolveUtf8 lookup name) (← resolveUtf8 lookup descriptor)
  | methodHandle kind reference =>
    return .methodHandle kind (← lookup kind.referenceTags .memberReference reference)
  | methodType descriptor => return .methodType (← resolveUtf8 lookup descriptor)
  | dynamic bootstrap member => return .dynamic bootstrap (← resolveMember lookup member)
  | invokeDynamic bootstrap member =>
    return .invokeDynamic bootstrap (← resolveMember lookup member)
  | moduleInfo name => return .moduleInfo (← resolveUtf8 lookup name)
  | packageInfo name => return .packageInfo (← resolveUtf8 lookup name)

end RawConstant

/-- The constants taken off the input so far. -/
structure RawPool where
  /-- Index of the next constant. -/
  next : Nat
  /-- The constants in the order of the file. -/
  constants : Array RawConstant
  /-- Position and tag of the constant at each index. -/
  places : Array (Option (Nat × ConstantTag))

namespace RawPool

/-- Nothing read yet, of a pool with the given count. -/
def start (count : Nat) : RawPool := ⟨1, #[], Array.replicate count none⟩

/-- Take the next constant off the input. -/
def step (raw : RawPool) : Reader RawPool := do
  let constant ← RawConstant.read (UInt16.ofNat raw.next)
  let position := raw.constants.size
  return {
    next := raw.next + width constant
    constants := raw.constants.push constant
    places := raw.places.setIfInBounds raw.next (some (position, constant.tag)) }

/-- The first pass. A last constant of two indices must not overstep the count. -/
def read : Reader RawPool := do
  let count ← Reader.u16
  let raw ← Reader.loop (fun raw => raw.next < count.toNat) step count.toNat (start count.toNat)
  if raw.next = count.toNat then return raw
  else Reader.fail (.outOfRange .poolCount count.toNat)

/-- The handle of the constant at an index, in the pool with the given tag. -/
def lookup (raw : RawPool) (pool : PoolTag) : RawConstant.Lookup := fun tags expected index =>
  match raw.places[index.toNat]? with
  | some (some (slot, tag)) =>
    if tag ∈ tags then .ok ⟨pool, slot⟩ else .error (.badConstantReference index expected)
  | _ => .error (.badConstantReference index expected)

/-- The second pass, over one constant. -/
def addResolved (raw : RawPool) (pool : Pool) (constant : RawConstant) : Except Error Pool := do
  let constant ← constant.resolve (raw.lookup pool.tag)
  let (id, pool) := pool.pushEntry constant
  return { pool with interned := pool.interned.insertIfNew constant id }

/-- The second pass. -/
def resolve (raw : RawPool) (tag : PoolTag) : Except Error Pool := do
  let pool ← raw.constants.toList.foldlM raw.addResolved (Pool.empty tag)
  return { pool with fixed := pool.size }

end RawPool

/-- Read a pool, which gets the given tag. -/
def Pool.read (tag : PoolTag) : Reader Pool := do
  let raw ← RawPool.read
  let pool ← Reader.ofExcept (raw.resolve tag)
  Reader.note (.readPool pool.size pool.interned.size)
  return pool

/-! ## Reading handles -/

namespace Pool

def readId (pool : Pool) : Reader ConstantId := do
  Reader.ofExcept (pool.idAt (← Reader.u16))

def readUtf8 (pool : Pool) : Reader Utf8Id := do
  Reader.ofExcept (pool.utf8At (← Reader.u16))

def readClass (pool : Pool) : Reader ClassId := do
  Reader.ofExcept (pool.classAt (← Reader.u16))

def readNameAndType (pool : Pool) : Reader NameAndTypeId := do
  Reader.ofExcept (pool.nameAndTypeAt (← Reader.u16))

/-- A class, or nothing at index 0. -/
def readOptionalClass (pool : Pool) : Reader (Option ClassId) := do
  let index ← Reader.u16
  if index = 0 then return none
  else some <$> Reader.ofExcept (pool.classAt index)

end Pool

end ClassFormat
