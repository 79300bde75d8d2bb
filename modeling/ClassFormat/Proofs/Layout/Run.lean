import ClassFormat.Constant.Basic
import ClassFormat.Proofs.Layout
/-!
# Layouts that are pushed onto and cleared

A layout is changed by pushing one element, by pushing several, and by dropping all of them. What it
keeps is the elements that were pushed since it was last cleared, in that order (`Change.kept`).

Offsets are sums in 64 bits, so they are known up to multiples of `2 ^ 64` whatever was pushed. Each
change keeps a layout the layout of its elements in this sense (`HoldsModulo.after`), and so does
any run of changes (`holdsModulo_run`). Unless the sum of the start and the widths is too large,
nothing is lost of it (`HoldsModulo.holds`): the elements stand where the widths before them put
them, and an offset leads to an element exactly if it is the one at which the element starts
(`find?_exact`).
-/

namespace ClassFormat.Layout

variable {α : Type} [Wide α] {range : Nat} {layout : Layout α range} {start : Nat}
  {elements : List α}

/-- A way to change a layout. -/
inductive Change (α : Type) where
  | push (element : α)
  | append (elements : List α)
  | clear

namespace Change

/-- The layout after a change. -/
def after (layout : Layout α range) : Change α → Layout α range
  | push element => layout.push element
  | append elements => layout.append elements
  | clear => layout.clear

omit [Wide α] in
/-- The elements that are kept after a change. -/
def kept (elements : List α) : Change α → List α
  | push element => elements ++ [element]
  | append others => elements ++ others
  | clear => []

end Change

/-- The layout that changes leave of an empty one, one after another. -/
def run (start : UInt64) (changes : List (Change α)) : Layout α :=
  changes.foldl Change.after (startingAt start.toNat)

omit [Wide α] in
/-- The elements that were pushed since the last time that all were dropped. -/
def keptBy (changes : List (Change α)) : List α := changes.foldl Change.kept []

/-! ## Offsets modulo the range -/

/-- A layout of some elements from an offset on, up to multiples of the range of offsets. -/
structure HoldsModulo (layout : Layout α range) (start : Nat) (elements : List α) : Prop where
  start_mod : start % range = start
  start_eq : layout.start = start
  toList_eq : layout.toList = (place start elements).map (Prod.map (· % range) id)
  stop_eq : layout.stop = (start + totalWidth elements) % range

theorem holdsModulo_startingAt (h : start % range = start) :
    (startingAt start : Layout α range).HoldsModulo start [] :=
  ⟨h, rfl, rfl, h.symm⟩

namespace HoldsModulo

/-- An element that is pushed stands behind all widths. -/
theorem push (h : layout.HoldsModulo start elements) (element : α) :
    (layout.push element).HoldsModulo start (elements ++ [element]) where
  start_mod := h.start_mod
  start_eq := h.start_eq
  toList_eq := by
    have htoList := h.toList_eq
    rw [Layout.toList] at htoList
    rw [place_append, List.map_append, ← htoList]
    simp [Layout.push, Layout.toList, place, h.stop_eq]
  stop_eq := by
    rw [totalWidth_append, ← Nat.add_assoc, ← Nat.mod_add_mod, ← h.stop_eq]
    simp [Layout.push]

/-- Appending a list is pushing its elements in order. -/
theorem append (h : layout.HoldsModulo start elements) (others : List α) :
    (layout.append others).HoldsModulo start (elements ++ others) := by
  unfold Layout.append
  induction others generalizing layout elements with
  | nil =>
    rw [List.append_nil]
    exact h
  | cons other others ih =>
    rw [List.append_cons]
    exact ih (h.push other)

/-- Clearing keeps where the offsets start and forgets the elements. -/
theorem clear (h : layout.HoldsModulo start elements) : layout.clear.HoldsModulo start [] := by
  rw [Layout.clear, h.start_eq]
  exact holdsModulo_startingAt h.start_mod

/-- A change of the layout is that change of the elements. -/
theorem after (h : layout.HoldsModulo start elements) (change : Change α) :
    (change.after layout).HoldsModulo start (change.kept elements) := by
  cases change with
  | push element => exact h.push element
  | append others => exact h.append others
  | clear => exact h.clear

/-- Elements are listed with their offsets and positions. -/
theorem getElem?_zipIdx_toList (h : layout.HoldsModulo start elements) (position : Nat) :
    layout.toList.zipIdx[position]? = elements[position]?.map fun element =>
      (((start + totalWidth (elements.take position)) % range, element), position) := by
  rw [List.getElem?_zipIdx, h.toList_eq, List.getElem?_map, getElem?_place, Option.map_map,
    Option.map_map, Nat.zero_add]
  rfl

/-- Nothing is lost of offsets if all of them are in the range. -/
theorem holds (h : layout.HoldsModulo start elements)
    (hroom : start + totalWidth elements < range) : layout.Holds start elements where
  start_eq := h.start_eq
  toList_eq := by
    rw [h.toList_eq]
    refine List.ext_getElem? fun position => ?_
    have hle := totalWidth_take_le elements position
    rw [List.getElem?_map, getElem?_place, Option.map_map]
    simp only [Function.comp_def, Prod.map_apply, id_eq,
      Nat.mod_eq_of_lt (show start + totalWidth (elements.take position) < range by omega)]
  stop_eq := by
    rw [h.stop_eq, Nat.mod_eq_of_lt hroom]

end HoldsModulo

/-- A run leaves the layout of the elements that it keeps. -/
theorem holdsModulo_run (start : UInt64) (changes : List (Change α)) :
    (run start changes).HoldsModulo start.toNat (keptBy changes) := by
  unfold run keptBy
  have hstart : (startingAt start.toNat : Layout α).HoldsModulo start.toNat [] :=
    holdsModulo_startingAt (Nat.mod_eq_of_lt start.toNat_lt)
  generalize (startingAt start.toNat : Layout α) = layout at hstart
  generalize ([] : List α) = elements at hstart
  induction changes generalizing layout elements with
  | nil => exact hstart
  | cons change changes ih => exact ih _ _ (hstart.after change)

/-! ## Offsets without loss -/

/-- Elements are listed with their offsets and positions. -/
theorem Holds.getElem?_zipIdx_toList (h : layout.Holds start elements) (position : Nat) :
    layout.toList.zipIdx[position]? = elements[position]?.map fun element =>
      ((start + totalWidth (elements.take position), element), position) := by
  rw [List.getElem?_zipIdx, h.toList_eq, getElem?_place, Option.map_map, Nat.zero_add]
  rfl

/-- Behind the last offset the next one is 0 again. -/
example : (run 0xffffffffffffffff [.push (Constant.integer 7)]).stop = 0 := by
  decide

end ClassFormat.Layout
