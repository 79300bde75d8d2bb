/-!
# Handles on constants

A handle names a constant by the pool it belongs to and its slot, the position at which it was
added. It is not the index that stands in a class file: indices are decided only when the pool is
laid out.

Numbers of pools and slots take 32 bits each. Here they have no bound, which is the same for up to
`2 ^ 32` pools made by one program and up to `2 ^ 32` constants in one pool. A program that makes
more pools gives the number of the first one to another one, and each takes the handles of the other
for its own.
-/

namespace ClassFormat

/-- Identity of a pool of constants, a number that no other pool has. -/
structure PoolTag where
  number : Nat
deriving DecidableEq, Hashable, Repr

/-- Handle on a constant of a pool. -/
structure ConstantId where
  pool : PoolTag
  slot : Nat
deriving DecidableEq, Hashable, Repr

/-- Handle on a text constant. -/
structure Utf8Id where
  id : ConstantId
deriving DecidableEq, Hashable, Repr

/-- Handle on a class constant. -/
structure ClassId where
  id : ConstantId
deriving DecidableEq, Hashable, Repr

/-- Handle on a constant that holds a name and a descriptor. -/
structure NameAndTypeId where
  id : ConstantId
deriving DecidableEq, Hashable, Repr

/-- How messages show a handle: the slot, but not which pool. -/
def ConstantId.describe (id : ConstantId) : String :=
  s!"ConstantId \x7b pool: PoolTag(_), slot: {id.slot} \x7d"

/-- How messages show a handle on a class. -/
def ClassId.describe (id : ClassId) : String := s!"ClassId({id.id.describe})"

end ClassFormat
