import ClassFormat.Code.Location
import ClassFormat.Pool.Indices
import ClassFormat.Pool.Read
/-!
# Exception handlers

An entry of the table behind a code array: a stretch of code, where to go on when an exception
arises in it, and the class of the exceptions it is for.
-/

namespace ClassFormat

/-- Where to go on after an exception. -/
structure ExceptionHandler where
  /-- Start of the code that is watched. -/
  start : Location
  /-- End of the code that is watched, itself excluded. -/
  stop : Location
  /-- Where to go on. -/
  target : Location
  /-- Class of the exceptions caught; nothing stands for all of them. -/
  catchType : Option ClassId
deriving DecidableEq, Repr

/-- A class by its index, or index 0 for none. -/
def Indices.encodeOptionalClass (indices : Indices) : Option ClassId → Except Error Bytes
  | none => .ok (BigEndian.u16 0)
  | some id => indices.encode id.id

namespace ExceptionHandler

def resolve (placement : Placement) (handler : ExceptionHandler) : ExceptionHandler :=
  { handler with
    start := placement.resolve handler.start
    stop := placement.resolve handler.stop
    target := placement.resolve handler.target }

def encode (indices : Indices) (handler : ExceptionHandler) : Except Error Bytes := do
  let start ← handler.start.narrow .handlerStart
  let stop ← handler.stop.narrow .handlerEnd
  let target ← handler.target.narrow .handlerTarget
  let catchType ← indices.encodeOptionalClass handler.catchType
  return BigEndian.u16 start ++ BigEndian.u16 stop ++ BigEndian.u16 target ++ catchType

def read (pool : Pool) : Reader ExceptionHandler := do
  let start ← Reader.u16
  let stop ← Reader.u16
  let target ← Reader.u16
  let catchType ← pool.readOptionalClass
  return ⟨.fixed start.toNat, .fixed stop.toNat, .fixed target.toNat, catchType⟩

def describe (handler : ExceptionHandler) : String :=
  let catchType := match handler.catchType with
    | none => "None"
    | some id => s!"Some({id.describe})"
  s!"ExceptionHandler \x7b start: {handler.start.describe}, end: {handler.stop.describe}, "
    ++ s!"handler: {handler.target.describe}, catch_type: {catchType} \x7d"

end ExceptionHandler

end ClassFormat
