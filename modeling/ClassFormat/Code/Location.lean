import Std.Data.HashMap
import ClassFormat.Error
/-!
# Locations in code

Tables that point into a code array hold locations. A location is an offset, or a label that stands
for an offset not decided yet. A `Placement` binds labels to offsets, and resolving turns every
location whose label it binds into an offset.

Offsets take 32 bits. Only those read from a table, of 16 bits each, are ever added, so no sum needs
more, and here they have no bound.
-/

namespace ClassFormat

/-- Stands for an offset in code that is not laid out yet. -/
structure Label where
  number : Nat
deriving DecidableEq, Hashable, Repr

/-- The label of the first instruction. -/
def Label.start : Label := ⟨0⟩

/-- Labels are ordered by their numbers, so in the order in which they were given out. -/
instance : Ord Label := ⟨fun label other => compare label.number other.number⟩

/-- Name of a label in messages. -/
def Label.describe (label : Label) : String := s!"l{label.number}"

/-- A source of labels that were not given out before. -/
structure LabelSupply where
  next : Label

/-- The first label given out comes after the label of the first instruction. -/
def LabelSupply.initial : LabelSupply := ⟨⟨1⟩⟩

/-- A fresh label, and the supply without it. -/
def LabelSupply.fresh (supply : LabelSupply) : Label × LabelSupply :=
  (supply.next, ⟨⟨supply.next.number + 1⟩⟩)

/-- A place in a code array. -/
inductive Location where
  /-- Byte offset from the start of the code. -/
  | fixed (offset : Nat)
  /-- Offset of a label that is not placed yet. -/
  | pending (label : Label)
deriving DecidableEq, Repr

namespace Location

def offset? : Location → Option Nat
  | fixed offset => some offset
  | pending _ => none

/-- The offset in the two bytes that the format has for it. -/
def narrow (what : Quantity) : Location → Except Error UInt16
  | fixed offset => narrow16 what offset
  | pending _ => .error (.unresolvedLocation what)

def describe : Location → String
  | fixed offset => s!"Fixed({offset})"
  | pending label => s!"Pending({label.describe})"

end Location

/-- Offsets from `start` up to, but not including, `stop`. -/
structure Span where
  start : Nat
  stop : Nat
deriving DecidableEq, Repr

/-- Whether an offset lies in a span. -/
def Span.contains (span : Span) (offset : Nat) : Bool :=
  span.start ≤ offset && offset < span.stop

/-- Stretch of code between two locations, the second one excluded. -/
structure LocationRange where
  start : Location
  stop : Location
deriving DecidableEq, Repr

namespace LocationRange

/-- The range over a span. -/
def ofSpan (span : Span) : LocationRange := ⟨.fixed span.start, .fixed span.stop⟩

/-- The span of a range, if both ends have offsets and it is not empty. -/
def span? (range : LocationRange) : Option Span := do
  let start ← range.start.offset?
  let stop ← range.stop.offset?
  if start < stop then some ⟨start, stop⟩ else none

def describe (range : LocationRange) : String :=
  s!"LocationRange \x7b start: {range.start.describe}, end: {range.stop.describe} \x7d"

end LocationRange

/-- Offsets of the labels placed so far. -/
structure Placement where
  offsets : Std.HashMap Label Nat

namespace Placement

/-- Only the label of the first instruction is placed, at 0. -/
def initial : Placement := ⟨Std.HashMap.emptyWithCapacity.insert Label.start 0⟩

def offset? (placement : Placement) (label : Label) : Option Nat := placement.offsets[label]?

/-- Place a label, or place it anew. -/
def bind (placement : Placement) (label : Label) (offset : Nat) : Placement :=
  ⟨placement.offsets.insert label offset⟩

/-- Give a location its offset, if its label is placed. -/
def resolve (placement : Placement) : Location → Location
  | .fixed offset => .fixed offset
  | .pending label =>
    match placement.offset? label with
    | some offset => .fixed offset
    | none => .pending label

def resolveRange (placement : Placement) (range : LocationRange) : LocationRange :=
  ⟨placement.resolve range.start, placement.resolve range.stop⟩

end Placement

end ClassFormat
