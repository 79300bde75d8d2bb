import ClassFormat.BitSet
import ClassFormat.Layout
import ClassFormat.Outline.Basic
/-!
# Outlines of sets and layouts

A set of indices is shown with the room it has. Elements of a layout are shown with their offsets
and positions.
-/

namespace ClassFormat

namespace BitSet

/-- The room of a set and its indices. -/
def outlineFields (set : BitSet) : List (String × Outline) :=
  [("capacity", set.capacity), ("set", .ofNats set.toList)]

def outline (set : BitSet) : Outline := .record set.outlineFields

/-- A set with its texts, and whether it has all or none of the indices there is room for. -/
def details (set : BitSet) : Outline :=
  .record
    (("display", set.render) :: ("debug", set.describe) :: ("all_clear", set.isAllClear)
      :: ("all_set", set.isAllSet) :: set.outlineFields)

end BitSet

/-- The elements of a layout as numbers, each with its offset and position. -/
def Layout.outline {α : Type} {range : Nat} (number : α → Int) (layout : Layout α range) :
    Outline :=
  let element : (Nat × α) × Nat → Outline := fun ((offset, element), position) =>
    .list [offset, position, number element]
  .record
    [("len", layout.size), ("empty", layout.isEmpty), ("offset_len", layout.stop),
      ("iter", .ofList element layout.toList.zipIdx),
      ("debug", layout.describe fun element => toString (number element))]

end ClassFormat
