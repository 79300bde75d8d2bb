/-!
# Elements laid out by width

A `Layout` keeps elements of different widths one after another. The offset of an element is the
starting offset plus the widths of the elements before it, as in the pool of constants, where
counting starts at 1 and some constants take two indices. Offsets never descend, so an element is
found by its offset in a binary search.

Offsets are numbers of 64 bits. Behind the last of them they begin at 0 again and no longer ascend,
so a search among them tells nothing. A layout that never gets so far can do without the bound:
modulo 0, offsets are just numbers.
-/

namespace ClassFormat

/-- Things that take up a number of offsets. -/
class Wide (α : Type) where
  width : α → Nat

export Wide (width)

/-- Elements one after another, each with the offset at which it starts, modulo `range`. -/
structure Layout (α : Type) (range : Nat := UInt64.size) where
  /-- Offset of the first element. -/
  start : Nat
  /-- Elements with their offsets. -/
  entries : Array (Nat × α)
  /-- Offset of the next element to be added. -/
  stop : Nat

namespace Layout

variable {α : Type} {range : Nat}

/-- No elements; the first one will stand at `start`. -/
def startingAt (start : Nat) : Layout α range := ⟨start, #[], start⟩

/-- Number of elements. -/
def size (layout : Layout α range) : Nat := layout.entries.size

def isEmpty (layout : Layout α range) : Bool := layout.entries.isEmpty

/-- Add an element behind the others. -/
def push [Wide α] (layout : Layout α range) (element : α) : Layout α range :=
  { layout with
    entries := layout.entries.push (layout.stop, element)
    stop := (layout.stop + width element) % range }

/-- Add elements behind the others, in order. -/
def append [Wide α] (layout : Layout α range) (elements : List α) : Layout α range :=
  elements.foldl push layout

/-- Drop all elements. -/
def clear (layout : Layout α range) : Layout α range := startingAt layout.start

/-- Number of entries up to an offset: those before `low` are known to lie there, and those from
`high` on to lie behind it. Each step halves the stretch between, so a bound of its length is never
reached. -/
def countFrom (entries : Array (Nat × α)) (offset : Nat) : Nat → Nat → Nat → Nat
  | 0, low, _ => low
  | bound + 1, low, high =>
    if low < high then
      let middle := (low + high) / 2
      match entries[middle]? with
      | none => low
      | some (found, _) =>
        if found ≤ offset then countFrom entries offset bound (middle + 1) high
        else countFrom entries offset bound low middle
    else low

/-- Number of elements that start at an offset or before it. -/
def countUpTo (layout : Layout α range) (offset : Nat) : Nat :=
  countFrom layout.entries offset (layout.size + 1) 0 layout.size

/-- Position and element at an offset. Offsets inside a wide element or past the end have none. Of
elements at the same offset, which take no room but the last one, the last one is meant. -/
def find? (layout : Layout α range) (offset : Nat) : Option (Nat × α) :=
  match layout.countUpTo offset with
  | 0 => none
  | position + 1 =>
    match layout.entries[position]? with
    | some (found, element) => if found = offset then some (position, element) else none
    | none => none

/-- Elements in order, each with its offset. -/
def toList (layout : Layout α range) : List (Nat × α) := layout.entries.toList

/-- The elements in brackets, each behind its offset. -/
def describe (describeElement : α → String) (layout : Layout α range) : String :=
  let shown := layout.toList.map fun (offset, element) => s!"#{offset} = {describeElement element}"
  "[" ++ String.intercalate ", " shown ++ "]"

end Layout

end ClassFormat
