import ClassFormat.Code.Location
import ClassFormat.Descriptor
import ClassFormat.Pool.Indices
import ClassFormat.Pool.Read
/-!
# Local variable tables

A table says which variable a local variable slot holds at which addresses. In a file it is a list
of rows, one for each stretch of code, with the length of the stretch stored one less than it is.
Rows of the same variable that follow one another are one entry of the table.

Tables are made in two ways. A builder collects variables whose ranges may still mention labels, and
`LocalVariableBuilder.finalize` leaves out the variables that cannot be written. Reading is lenient:
the table only helps debugging, so a row whose name or descriptor is of no use is left out.
-/

namespace ClassFormat

/-- A variable as whoever generates code describes it. -/
structure LocalVariable where
  /-- A variable without a name is not recorded. -/
  name : Option String
  type : FieldType
  slot : UInt16
  /-- Stretches of code in which the variable lives. -/
  ranges : List LocationRange

/-- A variable whose name and descriptor are constants, with ranges of some kind. -/
structure VariableEntry (Range : Type) where
  name : Utf8Id
  descriptor : Utf8Id
  type : FieldType
  slot : UInt16
  ranges : List Range
deriving DecidableEq

/-- The variables of a code array, each with the stretches of code in which it lives. -/
structure LocalVariableTable where
  entries : List (VariableEntry Span)
deriving DecidableEq

/-- Collects variables until the code is laid out. -/
structure LocalVariableBuilder where
  pending : Array (VariableEntry LocationRange)

namespace VariableEntry

/-- Whether two entries are about the same variable. -/
def isSameVariable {ρ σ : Type} (entry : VariableEntry ρ) (other : VariableEntry σ) : Bool :=
  entry.name == other.name && entry.descriptor == other.descriptor && entry.slot == other.slot

/-- The entry with decided ranges, if there are any and each is decided and not empty. -/
def finalize? (entry : VariableEntry LocationRange) : Option (VariableEntry Span) :=
  match entry.ranges.mapM LocationRange.span? with
  | none | some [] => none
  | some spans => some { entry with ranges := spans }

/-- The notice of an entry that is left out. -/
def droppedNotice? (entry : VariableEntry LocationRange) : Option Notice :=
  match entry.finalize? with
  | some _ => none
  | none => some (.droppedVariable entry.slot entry.ranges)

/-- Whether the variable takes up a slot. The stretch of slots from its first one on ends before the
last slot there is. -/
def occupies (entry : VariableEntry Span) (slot : UInt16) : Bool :=
  entry.slot.toNat ≤ slot.toNat
    && slot.toNat < min (entry.slot.toNat + width entry.type) (UInt16.size - 1)

end VariableEntry

namespace LocalVariableBuilder

def empty : LocalVariableBuilder := ⟨#[]⟩

/-- Record a variable, adding its name and descriptor to the pool. -/
def add (builder : LocalVariableBuilder) (described : LocalVariable) :
    StateM Pool LocalVariableBuilder := do
  match described.name with
  | none => return builder
  | some name =>
    let name ← Pool.addUtf8 name
    let descriptor ← Pool.addUtf8 described.type.render
    let entry := ⟨name, descriptor, described.type, described.slot, described.ranges⟩
    return ⟨builder.pending.push entry⟩

/-- Give the ranges their offsets, where the labels are placed. -/
def resolve (placement : Placement) (builder : LocalVariableBuilder) : LocalVariableBuilder :=
  ⟨builder.pending.map fun entry =>
    { entry with ranges := entry.ranges.map placement.resolveRange }⟩

/-- The table of the variables that can be written, and a notice of each that cannot. -/
def finalize (builder : LocalVariableBuilder) : Noted LocalVariableTable :=
  ⟨⟨builder.pending.toList.filterMap VariableEntry.finalize?⟩,
    builder.pending.toList.filterMap VariableEntry.droppedNotice?⟩

end LocalVariableBuilder

namespace LocalVariableTable

/-- Number of rows in the file. -/
def rowCount (table : LocalVariableTable) : Nat :=
  table.entries.foldl (fun count entry => count + entry.ranges.length) 0

/-- Number of bytes in the file. -/
def length (table : LocalVariableTable) : Nat := 2 + 10 * table.rowCount

/-- The first entry whose variable is in a slot at an address. -/
def lookup (table : LocalVariableTable) (slot : UInt16) (address : Nat) :
    Option (VariableEntry Span) :=
  table.entries.find? fun entry =>
    entry.occupies slot && entry.ranges.any fun span => span.contains address

/-- A builder with the variables of the table. -/
def toBuilder (table : LocalVariableTable) : LocalVariableBuilder :=
  ⟨(table.entries.map fun entry =>
    { entry with ranges := entry.ranges.map LocationRange.ofSpan }).toArray⟩

/-! ## Writing -/

/-- One row. -/
def encodeRow (indices : Indices) (entry : VariableEntry Span) (span : Span) :
    Except Error Bytes := do
  let start ← narrow16 .localVariableStart span.start
  let length ← narrow16 .localVariableLength (span.stop - span.start - 1)
  let name ← indices.encode entry.name.id
  let descriptor ← indices.encode entry.descriptor.id
  return BigEndian.u16 start ++ BigEndian.u16 length ++ name ++ descriptor
    ++ BigEndian.u16 entry.slot

/-- The rows in order, each with its entry. -/
def rows (table : LocalVariableTable) : List (VariableEntry Span × Span) :=
  table.entries.flatMap fun entry => entry.ranges.map fun span => (entry, span)

def encode (indices : Indices) (table : LocalVariableTable) : Except Error Bytes := do
  let count ← narrow16 .localVariableRows table.rowCount
  let rows ← table.rows.mapM fun (entry, span) => encodeRow indices entry span
  return BigEndian.u16 count ++ rows.flatten

end LocalVariableTable

/-! ## Reading -/

/-- A row as it stands in the file. -/
structure VariableRow where
  start : UInt16
  /-- One less than the length of the stretch. -/
  length : UInt16
  name : UInt16
  descriptor : UInt16
  slot : UInt16
deriving DecidableEq, Repr

namespace VariableRow

def span (row : VariableRow) : Span :=
  ⟨row.start.toNat, row.start.toNat + row.length.toNat + 1⟩

def read : Reader VariableRow := do
  let start ← Reader.u16
  let length ← Reader.u16
  let name ← Reader.u16
  let descriptor ← Reader.u16
  let slot ← Reader.u16
  return ⟨start, length, name, descriptor, slot⟩

end VariableRow

namespace VariableEntry

/-- An entry with its ranges the other way round. -/
def reversed (entry : VariableEntry Span) : VariableEntry Span :=
  { entry with ranges := entry.ranges.reverse }

end VariableEntry

namespace LocalVariableTable

/-- The entries so far with a range more for the last one, if that is about a given variable. The
entries stand last one first, and so do the ranges of each. -/
def extendLast? (name descriptor : Utf8Id) (slot : UInt16) (span : Span) :
    List (VariableEntry Span) → Option (List (VariableEntry Span))
  | [] => none
  | last :: others =>
    if last.name == name && last.descriptor == descriptor && last.slot == slot then
      some ({ last with ranges := span :: last.ranges } :: others)
    else none

/-- The entries with one more row, or why the row is of no use. What a descriptor says does not
matter if the last entry has it already. -/
def addRow (pool : Pool) (found : List (VariableEntry Span)) (row : VariableRow) :
    Except Error (List (VariableEntry Span)) := do
  let name ← pool.utf8At row.name
  let descriptor ← pool.utf8At row.descriptor
  match extendLast? name descriptor row.slot row.span found with
  | some extended => return extended
  | none =>
    let type ← FieldType.parse (← pool.text descriptor)
    return ⟨name, descriptor, type, row.slot, [row.span]⟩ :: found

/-- Take the next row off the input. A row that is of no use is left out with a notice. -/
def readRow (pool : Pool) (found : List (VariableEntry Span)) :
    Reader (List (VariableEntry Span)) := do
  let row ← VariableRow.read
  match addRow pool found row with
  | .ok found => return found
  | .error cause =>
    Reader.note (.droppedRow row.slot cause)
    return found

/-- Read a table row by row. -/
def read (pool : Pool) : Reader LocalVariableTable := do
  let count ← Reader.u16
  let found ← Reader.times count.toNat (readRow pool) []
  return ⟨found.reverse.map VariableEntry.reversed⟩

end LocalVariableTable

end ClassFormat
