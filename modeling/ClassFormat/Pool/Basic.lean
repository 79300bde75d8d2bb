import Std.Data.HashMap
import ClassFormat.Constant.Basic
/-!
# The pool of constants

A pool keeps constants in the order in which they were added; the slot of a constant is its place in
that order. Adding a constant that is already there gives the handle of the first equal one.

The index of a constant is its offset in the layout of the pool. Constants read from a file come
first and keep their indices, then come the constants marked as priority, then all others, each
group in the order of their slots. Most additions only push onto the layout; marking a constant as
priority lays the pool out anew. The layout needs no bound for its offsets: handles have slots of 32
bits, and each constant takes one index or two.

An `Edit` is a change of a pool that may fail. It answers the pool it leaves in either case.
-/

namespace ClassFormat

/-- A constant of a pool. -/
structure PoolEntry where
  constant : Constant
  /-- Whether the constant is laid out before all that are neither read nor priority. -/
  isPriority : Bool

/-- A constant in the layout of a pool. -/
structure PoolSlot where
  id : ConstantId
  width : Nat

instance : Wide PoolSlot := ⟨PoolSlot.width⟩

/-- Constants of a class file. -/
structure Pool where
  tag : PoolTag
  /-- The constants by slot. -/
  entries : Array PoolEntry
  /-- The first slot of each distinct constant. -/
  interned : Std.HashMap Constant ConstantId
  /-- The constants at their indices. -/
  layout : Layout PoolSlot 0
  /-- Number of constants that were read from a file. -/
  fixed : Nat

/-- A change of a pool that may fail, with the pool it leaves in either case. -/
abbrev Edit (α : Type) : Type := ExceptT Error (StateM Pool) α

/-- The result of an edit and the pool it leaves. -/
def Edit.apply {α : Type} (edit : Edit α) (pool : Pool) : Except Error α × Pool :=
  StateT.run (ExceptT.run edit) pool

namespace Pool

/-- A pool without constants. Index 0 is never used. -/
def empty (tag : PoolTag) : Pool :=
  { tag, entries := #[], interned := ∅, layout := .startingAt 1, fixed := 0 }

/-- Number of constants, which may be less than the number of indices they take. -/
def size (pool : Pool) : Nat := pool.entries.size

def isEmpty (pool : Pool) : Bool := pool.entries.isEmpty

/-! ## Looking up by handle -/

/-- Whether a handle was given out by this pool. -/
def owns (pool : Pool) (id : ConstantId) : Bool :=
  id.pool == pool.tag && id.slot < pool.entries.size

/-- The constant of a handle, if the pool gave it out. -/
def constant (pool : Pool) (id : ConstantId) : Except Error Constant :=
  match pool.entries[id.slot]? with
  | some entry => if id.pool = pool.tag then .ok entry.constant else .error (.foreignConstant id)
  | none => .error (.foreignConstant id)

/-- The text of a handle, if it is a string. -/
def text (pool : Pool) (id : Utf8Id) : Except Error String := do
  match ← pool.constant id.id with
  | .utf8 text => return text
  | .utf16 _ => throw (.unpairedSurrogates id.id)
  | _ => throw (.foreignConstant id.id)

/-- The name of a class in its internal form. -/
def className (pool : Pool) (id : ClassId) : Except Error String := do
  match ← pool.constant id.id with
  | .classInfo name => pool.text name
  | _ => throw (.foreignConstant id.id)

/-! ## Looking up by index -/

/-- The handle of the constant at an index. -/
def idAt (pool : Pool) (index : UInt16) : Except Error ConstantId :=
  match pool.layout.find? index.toNat with
  | some (_, slot) => .ok slot.id
  | none => .error (.invalidConstantIndex index)

/-- The constant at an index. -/
def constantAt (pool : Pool) (index : UInt16) : Except Error Constant := do
  pool.constant (← pool.idAt index)

/-- The handle of the constant at an index, if its tag is among the given ones. -/
def idWithTag (pool : Pool) (tags : List ConstantTag) (expected : ConstantRole)
    (index : UInt16) : Except Error ConstantId := do
  let id ← pool.idAt index
  let constant ← pool.constant id
  if constant.tag ∈ tags then return id else throw (.badConstantReference index expected)

def utf8At (pool : Pool) (index : UInt16) : Except Error Utf8Id :=
  Utf8Id.mk <$> pool.idWithTag [.utf8] .utf8 index

def classAt (pool : Pool) (index : UInt16) : Except Error ClassId :=
  ClassId.mk <$> pool.idWithTag [.classInfo] .classInfo index

def nameAndTypeAt (pool : Pool) (index : UInt16) : Except Error NameAndTypeId :=
  NameAndTypeId.mk <$> pool.idWithTag [.nameAndType] .nameAndType index

/-- The constants in the order of their indices: index, handle and constant of each. -/
def toList (pool : Pool) : List (Nat × ConstantId × Constant) :=
  pool.layout.toList.filterMap fun (index, slot) =>
    pool.entries[slot.id.slot]?.map fun entry => (index, slot.id, entry.constant)

/-! ## Adding -/

/-- Put a constant into the next slot, whether it is there already or not. -/
def pushEntry (pool : Pool) (constant : Constant) : ConstantId × Pool :=
  let id : ConstantId := ⟨pool.tag, pool.entries.size⟩
  (id, { pool with
    entries := pool.entries.push ⟨constant, false⟩
    layout := pool.layout.push ⟨id, width constant⟩ })

/-- The handle of a constant, which is added if it is not there yet. -/
def intern (constant : Constant) : StateM Pool ConstantId := fun pool =>
  match pool.interned[constant]? with
  | some id => (id, pool)
  | none =>
    let (id, pool) := pool.pushEntry constant
    (id, { pool with interned := pool.interned.insert constant id })

/-- Refuse a handle that the pool did not give out. -/
def checkOwned (id : ConstantId) : Edit Unit := do
  unless (← get).owns id do throw (.foreignConstant id)

/-- Add a constant, or find the equal one that is there. Its references have to be constants of
the pool. -/
def add (constant : Constant) : Edit ConstantId := do
  constant.references.forM checkOwned
  intern constant

/-- Lay the constants of some slots out behind a layout, in the order of their slots. -/
def layOutBehind (pool : Pool) (isWanted : Nat → PoolEntry → Bool) (layout : Layout PoolSlot 0) :
    Layout PoolSlot 0 :=
  pool.entries.zipIdx.foldl
    (fun layout (entry, slot) =>
      if isWanted slot entry then layout.push ⟨⟨pool.tag, slot⟩, width entry.constant⟩ else layout)
    layout

/-- The layout of all constants: those read from a file, the priority ones, the others. -/
def layOut (pool : Pool) : Layout PoolSlot 0 :=
  let isRead (slot : Nat) : Bool := slot < pool.fixed
  let read := pool.layOutBehind (fun slot _ => isRead slot) (.startingAt 1)
  let priority := pool.layOutBehind (fun slot entry => !isRead slot && entry.isPriority) read
  pool.layOutBehind (fun slot entry => !isRead slot && !entry.isPriority) priority

/-- Lay a constant out before all that are neither read nor priority. A constant read from a file
cannot be moved. -/
def setPriority (id : ConstantId) : Edit Unit := do
  checkOwned id
  let pool ← get
  if id.slot < pool.fixed then throw (.fixedConstantIndex id)
  match pool.entries[id.slot]? with
  | some ⟨constant, false⟩ =>
    let pool := { pool with entries := pool.entries.setIfInBounds id.slot ⟨constant, true⟩ }
    set { pool with layout := pool.layOut }
  | _ => pure ()

/-- Add a constant and mark it as priority. -/
def addPriority (constant : Constant) : Edit ConstantId := do
  let id ← add constant
  setPriority id
  return id

/-! ## Adding constants of each kind -/

def addUtf8 (text : String) : StateM Pool Utf8Id := Utf8Id.mk <$> intern (.utf8 text)

def addClass (name : String) : StateM Pool ClassId := do
  return ⟨← intern (.classInfo (← addUtf8 name))⟩

def addString (text : String) : StateM Pool ConstantId := do
  intern (.string (← addUtf8 text))

def addInteger (value : Int32) : StateM Pool ConstantId := intern (.integer value)

def addFloat (bits : UInt32) : StateM Pool ConstantId := intern (.float bits)

def addLong (value : Int64) : StateM Pool ConstantId := intern (.long value)

def addDouble (bits : UInt64) : StateM Pool ConstantId := intern (.double bits)

def addNameAndType (name descriptor : String) : StateM Pool NameAndTypeId := do
  let name ← addUtf8 name
  let descriptor ← addUtf8 descriptor
  return ⟨← intern (.nameAndType name descriptor)⟩

def addFieldRef (owner : ClassId) (member : NameAndTypeId) : Edit ConstantId :=
  add (.fieldRef owner member)

def addMethodRef (owner : ClassId) (member : NameAndTypeId) : Edit ConstantId :=
  add (.methodRef owner member)

def addInterfaceMethodRef (owner : ClassId) (member : NameAndTypeId) : Edit ConstantId :=
  add (.interfaceMethodRef owner member)

def addMethodType (descriptor : String) : StateM Pool ConstantId := do
  intern (.methodType (← addUtf8 descriptor))

/-- Add a method handle, whose reference has to be of a kind that the handle admits. -/
def addMethodHandle (kind : HandleKind) (reference : ConstantId) : Edit ConstantId := do
  let constant ← (← get).constant reference
  unless constant.tag ∈ kind.referenceTags do throw (.badConstantReference 0 .memberReference)
  add (.methodHandle kind reference)

def addDynamic (bootstrap : UInt16) (member : NameAndTypeId) : Edit ConstantId :=
  add (.dynamic bootstrap member)

def addInvokeDynamic (bootstrap : UInt16) (member : NameAndTypeId) : Edit ConstantId :=
  add (.invokeDynamic bootstrap member)

def addModule (name : String) : StateM Pool ConstantId := do
  intern (.moduleInfo (← addUtf8 name))

def addPackage (name : String) : StateM Pool ConstantId := do
  intern (.packageInfo (← addUtf8 name))

end Pool

end ClassFormat
