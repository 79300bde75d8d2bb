import ClassFormat.Layout
import Mathlib.Algebra.GroupWithZero.Nat
import Mathlib.Data.List.Forall2
import Mathlib.Tactic.Common
/-!
# Where the elements of a layout stand

`place start elements` is the list of elements with their offsets: the first one stands at `start`,
and each one behind the widths of those before it. `layout.Holds start elements` says that a layout
is exactly that. Pushing keeps it where offsets have no bound.

The main statement is `Layout.find?_eq_some_iff`: where all widths are positive, the binary search
finds an element at an offset exactly when it stands there.
-/

namespace ClassFormat

namespace Layout

variable {α β : Type} [Wide α] [Wide β] {range : Nat}

/-- Sum of the widths of some elements. -/
def totalWidth (elements : List α) : Nat := (elements.map width).sum

@[simp] theorem totalWidth_nil : totalWidth ([] : List α) = 0 := rfl

@[simp] theorem totalWidth_cons (element : α) (elements : List α) :
    totalWidth (element :: elements) = width element + totalWidth elements := by
  simp [totalWidth]

@[simp] theorem totalWidth_append (elements others : List α) :
    totalWidth (elements ++ others) = totalWidth elements + totalWidth others := by
  simp [totalWidth]

/-- A part of the elements is no wider than all of them. -/
theorem totalWidth_take_le (elements : List α) (k : Nat) :
    totalWidth (elements.take k) ≤ totalWidth elements := by
  conv_rhs => rw [← List.take_append_drop k elements, totalWidth_append]
  exact Nat.le_add_right _ _

/-- An element ends behind the widths up to and including its own. -/
theorem totalWidth_take_succ {elements : List α} {k : Nat} {element : α}
    (h : elements[k]? = some element) :
    totalWidth (elements.take (k + 1)) = totalWidth (elements.take k) + width element := by
  rw [List.take_add_one, h, totalWidth_append]
  simp

theorem totalWidth_take_mono (elements : List α) {i j : Nat} (h : i ≤ j) :
    totalWidth (elements.take i) ≤ totalWidth (elements.take j) := by
  have hmin : elements.take i = (elements.take j).take i := by
    rw [List.take_take, Nat.min_eq_left h]
  rw [hmin]
  exact totalWidth_take_le ..

/-- With positive widths, what comes later stands at a greater offset. -/
theorem totalWidth_take_lt {elements : List α} (hpos : ∀ element ∈ elements, 0 < width element)
    {i j : Nat} (hi : i < elements.length) (hij : i < j) :
    totalWidth (elements.take i) < totalWidth (elements.take j) := by
  have hget : elements[i]? = some elements[i] := List.getElem?_eq_getElem hi
  have hstep := totalWidth_take_succ hget
  have hwidth := hpos elements[i] (List.getElem_mem hi)
  have hmono := totalWidth_take_mono elements (show i + 1 ≤ j from hij)
  omega

/-- Lists of the same widths, one element after the other, have the same total. -/
theorem totalWidth_eq_of_forall₂ {elements : List α} {others : List β}
    (h : List.Forall₂ (fun element other => width element = width other) elements others) :
    totalWidth elements = totalWidth others := by
  induction h with
  | nil => rfl
  | cons hwidth _ ih => rw [totalWidth_cons, totalWidth_cons, hwidth, ih]

/-! ## Elements with their offsets -/

/-- Elements laid out from an offset on, each with its own. -/
def place (start : Nat) : List α → List (Nat × α)
  | [] => []
  | element :: elements => (start, element) :: place (start + width element) elements

@[simp] theorem length_place (start : Nat) (elements : List α) :
    (place start elements).length = elements.length := by
  induction elements generalizing start with
  | nil => rfl
  | cons element elements ih => simp [place, ih]

@[simp] theorem map_snd_place (start : Nat) (elements : List α) :
    (place start elements).map Prod.snd = elements := by
  induction elements generalizing start with
  | nil => rfl
  | cons element elements ih => simp [place, ih]

/-- Elements placed later begin where those placed before them end. -/
theorem place_append (start : Nat) (elements others : List α) :
    place start (elements ++ others)
      = place start elements ++ place (start + totalWidth elements) others := by
  induction elements generalizing start with
  | nil => simp [place]
  | cons element elements ih =>
    simp only [List.cons_append, place, ih, totalWidth_cons, Nat.add_assoc]

/-- The offset of an element is the start and the widths before it. -/
theorem getElem?_place (start : Nat) (elements : List α) (k : Nat) :
    (place start elements)[k]?
      = elements[k]?.map fun element => (start + totalWidth (elements.take k), element) := by
  induction elements generalizing start k with
  | nil => simp [place]
  | cons element elements ih =>
    cases k with
    | zero => simp [place]
    | succ k =>
      simp only [place, List.getElem?_cons_succ, ih, List.take_succ_cons, totalWidth_cons,
        Nat.add_assoc]

/-- The offset of an element is the start and the widths of all elements before it. -/
theorem getElem?_place_eq_some {start : Nat} {elements : List α} {k offset : Nat} {element : α} :
    (place start elements)[k]? = some (offset, element)
      ↔ elements[k]? = some element ∧ offset = start + totalWidth (elements.take k) := by
  rw [getElem?_place, Option.map_eq_some_iff]
  constructor
  · rintro ⟨found, hfound, heq⟩
    obtain ⟨rfl, rfl⟩ := Prod.mk.inj heq
    exact ⟨hfound, rfl⟩
  · rintro ⟨hfound, rfl⟩
    exact ⟨element, hfound, rfl⟩

/-- Every offset up to the end lies inside an element. -/
theorem exists_covering {start offset : Nat} {elements : List α} (hstart : start ≤ offset)
    (hstop : offset < start + totalWidth elements) :
    ∃ (k : Nat) (element : α), elements[k]? = some element
      ∧ start + totalWidth (elements.take k) ≤ offset
      ∧ offset < start + totalWidth (elements.take k) + width element := by
  induction elements generalizing start with
  | nil =>
    rw [totalWidth_nil] at hstop
    omega
  | cons element elements ih =>
    rw [totalWidth_cons] at hstop
    by_cases hinside : offset < start + width element
    · exact ⟨0, element, rfl, by simpa using hstart, by simpa using hinside⟩
    · obtain ⟨k, found, hget, hlow, hhigh⟩ := @ih (start + width element) (by omega) (by omega)
      refine ⟨k + 1, found, hget, ?_, ?_⟩ <;> rw [List.take_succ_cons, totalWidth_cons] <;> omega

/-- No offset lies inside two elements. -/
theorem covering_unique {start offset i j : Nat} {elements : List α} {element other : α}
    (hi : elements[i]? = some element) (hilow : start + totalWidth (elements.take i) ≤ offset)
    (hihigh : offset < start + totalWidth (elements.take i) + width element)
    (hj : elements[j]? = some other) (hjlow : start + totalWidth (elements.take j) ≤ offset)
    (hjhigh : offset < start + totalWidth (elements.take j) + width other) : i = j := by
  have hiend := totalWidth_take_succ hi
  have hjend := totalWidth_take_succ hj
  rcases Nat.lt_trichotomy i j with hij | hij | hij
  · have hmono := totalWidth_take_mono elements (show i + 1 ≤ j from hij)
    omega
  · exact hij
  · have hmono := totalWidth_take_mono elements (show j + 1 ≤ i from hij)
    omega

/-! ## Layouts -/

/-- A layout of some elements from an offset on. -/
structure Holds (layout : Layout α range) (start : Nat) (elements : List α) : Prop where
  start_eq : layout.start = start
  toList_eq : layout.toList = place start elements
  stop_eq : layout.stop = start + totalWidth elements

theorem holds_startingAt (start : Nat) : (startingAt start : Layout α range).Holds start [] :=
  ⟨rfl, rfl, rfl⟩

namespace Holds

variable {layout other : Layout α range} {start : Nat} {elements : List α}

/-- Without a bound, an element that is pushed stands behind all widths. -/
theorem push {layout : Layout α 0} (h : layout.Holds start elements) (element : α) :
    (layout.push element).Holds start (elements ++ [element]) where
  start_eq := h.start_eq
  toList_eq := by
    have htoList := h.toList_eq
    rw [Layout.toList] at htoList
    rw [place_append, ← htoList, ← h.stop_eq]
    simp [Layout.push, Layout.toList, place]
  stop_eq := by
    simp [Layout.push, h.stop_eq, Nat.add_assoc]

/-- A layout is determined by its start and its elements. -/
theorem unique (h : layout.Holds start elements) (hother : other.Holds start elements) :
    layout = other := by
  rcases layout with ⟨start₁, entries₁, stop₁⟩
  rcases other with ⟨start₂, entries₂, stop₂⟩
  have hstart : start₁ = start₂ := h.start_eq.trans hother.start_eq.symm
  have hstop : stop₁ = stop₂ := h.stop_eq.trans hother.stop_eq.symm
  have hentries : entries₁.toList = entries₂.toList := h.toList_eq.trans hother.toList_eq.symm
  rw [hstart, hstop, Array.toList_inj.mp hentries]

/-- The entries of a layout are the elements it was made of, each at its offset. -/
theorem getElem?_entries (h : layout.Holds start elements) (k : Nat) :
    layout.entries[k]?
      = elements[k]?.map fun element => (start + totalWidth (elements.take k), element) := by
  rw [← getElem?_place, ← h.toList_eq, Layout.toList, Array.getElem?_toList]

theorem getElem?_entries_eq_some (h : layout.Holds start elements) {k found : Nat} {element : α} :
    layout.entries[k]? = some (found, element)
      ↔ elements[k]? = some element ∧ found = start + totalWidth (elements.take k) := by
  rw [h.getElem?_entries, ← getElem?_place, getElem?_place_eq_some]

end Holds

/-! ## Finding by offset -/

/-- The offsets of the entries ascend. -/
def Ascends (entries : Array (Nat × α)) : Prop :=
  ∀ (i j found other : Nat) (element second : α), i < j → entries[i]? = some (found, element) →
    entries[j]? = some (other, second) → found < other

/-- The entries before `low` stand at the offset or before it, and those from `high` on behind. -/
structure Splits (entries : Array (Nat × α)) (offset low high : Nat) : Prop where
  low_le : low ≤ high
  high_le : high ≤ entries.size
  below : ∀ i found element, i < low → entries[i]? = some (found, element) → found ≤ offset
  above : ∀ i found element, high ≤ i → entries[i]? = some (found, element) → offset < found

omit [Wide α] in
/-- The search narrows the stretch between `low` and `high` down to one position. -/
theorem splits_countFrom {entries : Array (Nat × α)} {offset : Nat}
    (hascends : Ascends entries)
    (bound low high : Nat) (hsplits : Splits entries offset low high)
    (hbound : high - low < bound) :
    Splits entries offset (countFrom entries offset bound low high)
      (countFrom entries offset bound low high) := by
  induction bound generalizing low high with
  | zero => omega
  | succ bound ih =>
    obtain ⟨hlow, hhigh, hbelow, habove⟩ := hsplits
    by_cases hlt : low < high
    · have hmiddle : (low + high) / 2 < entries.size := by omega
      have hget : ∃ found element, entries[(low + high) / 2]? = some (found, element) :=
        ⟨_, _, Array.getElem?_eq_getElem hmiddle⟩
      obtain ⟨found, element, hget⟩ := hget
      simp only [countFrom, if_pos hlt, hget]
      -- The entry in the middle stands for all before it, or for all behind it: offsets ascend.
      by_cases hfound : found ≤ offset
      · rw [if_pos hfound]
        refine ih _ _ ⟨by omega, hhigh, ?_, habove⟩ (by omega)
        intro i other second hi hother
        rcases Nat.lt_or_eq_of_le (Nat.le_of_lt_succ hi) with hi | rfl
        · exact Nat.le_trans (Nat.le_of_lt (hascends _ _ _ _ _ _ hi hother hget)) hfound
        · rw [hget] at hother
          cases hother
          exact hfound
      · rw [if_neg hfound]
        refine ih _ _ ⟨by omega, by omega, hbelow, ?_⟩ (by omega)
        intro i other second hi hother
        rcases Nat.lt_or_eq_of_le hi with hi | rfl
        · exact Nat.lt_trans (Nat.lt_of_not_le hfound) (hascends _ _ _ _ _ _ hi hget hother)
        · rw [hget] at hother
          cases hother
          exact Nat.lt_of_not_le hfound
    · have heq : high = low := by omega
      subst heq
      simp only [countFrom, Nat.lt_irrefl, if_false]
      exact ⟨Nat.le_refl _, hhigh, hbelow, habove⟩

namespace Holds

variable {layout : Layout α range} {start : Nat} {elements : List α}

/-- The position that a search arrives at. -/
theorem splits_countUpTo (h : layout.Holds start elements)
    (hpos : ∀ element ∈ elements, 0 < width element) (offset : Nat) :
    Splits layout.entries offset (layout.countUpTo offset) (layout.countUpTo offset) := by
  have hascends : Ascends layout.entries := by
    intro i j found other element second hij hi hj
    rw [h.getElem?_entries_eq_some] at hi hj
    obtain ⟨hi, rfl⟩ := hi
    obtain ⟨hj, rfl⟩ := hj
    have hlength := (List.getElem?_eq_some_iff.mp hi).1
    have hlt := totalWidth_take_lt hpos hlength hij
    omega
  apply splits_countFrom hascends
  · refine ⟨Nat.zero_le _, Nat.le_refl _, ?_, ?_⟩
    · intro i found element hi
      omega
    · intro i found element hi hget
      rw [Array.getElem?_eq_none hi] at hget
      cases hget
  · omega

/-- An element that stands at the offset is the last one that a search counts. -/
theorem eq_of_splits (h : layout.Holds start elements)
    (hpos : ∀ element ∈ elements, 0 < width element) {offset position count : Nat} {element : α}
    (hsplits : Splits layout.entries offset count count)
    (hget : layout.entries[position]? = some (offset, element)) : count = position + 1 := by
  have hcounted : position < count := by
    rcases Nat.lt_or_ge position count with hlt | hge
    · exact hlt
    · exact absurd (hsplits.above _ _ _ hge hget) (Nat.lt_irrefl _)
  rcases Nat.lt_or_eq_of_le (Nat.succ_le_of_lt hcounted) with hlt | heq
  · -- The next one starts behind the offset, so it was not counted.
    have hsize := hsplits.high_le
    obtain ⟨next, hnext⟩ : ∃ next, layout.entries[position + 1]? = some next :=
      ⟨_, Array.getElem?_eq_getElem (by omega)⟩
    have hbelow := hsplits.below _ next.1 next.2 hlt hnext
    obtain ⟨hposition, hoffset⟩ := h.getElem?_entries_eq_some.mp hget
    obtain ⟨-, hlater⟩ := h.getElem?_entries_eq_some.mp hnext
    have hascend := totalWidth_take_lt hpos (List.getElem?_eq_some_iff.mp hposition).1
      (show position < position + 1 by omega)
    omega
  · exact heq.symm

/-- The search finds an element at an offset exactly when the element stands there. -/
theorem find?_eq_some_iff (h : layout.Holds start elements)
    (hpos : ∀ element ∈ elements, 0 < width element) {offset position : Nat} {element : α} :
    layout.find? offset = some (position, element)
      ↔ elements[position]? = some element
        ∧ offset = start + totalWidth (elements.take position) := by
  have hsplits := h.splits_countUpTo hpos offset
  rw [← h.getElem?_entries_eq_some]
  unfold find?
  generalize layout.countUpTo offset = count at hsplits
  constructor
  · intro hfind
    cases count with
    | zero => simp at hfind
    | succ last =>
      simp only at hfind
      split at hfind
      · rename_i found candidate hget
        split at hfind
        · rename_i heq
          cases hfind
          rw [hget, heq]
        · simp at hfind
      · simp at hfind
  · intro hget
    rw [h.eq_of_splits hpos hsplits hget]
    simp only [hget, if_true]

/-- Nothing is found exactly where no element stands. -/
theorem find?_eq_none_iff (h : layout.Holds start elements)
    (hpos : ∀ element ∈ elements, 0 < width element) {offset : Nat} :
    layout.find? offset = none
      ↔ ∀ position < elements.length, offset ≠ start + totalWidth (elements.take position) := by
  constructor
  · intro hnone position hlt heq
    have hget : elements[position]? = some elements[position] := List.getElem?_eq_getElem hlt
    rw [(h.find?_eq_some_iff hpos).mpr ⟨hget, heq⟩] at hnone
    cases hnone
  · intro hnowhere
    cases hfind : layout.find? offset with
    | none => rfl
    | some found =>
      obtain ⟨position, element⟩ := found
      obtain ⟨hget, heq⟩ := (h.find?_eq_some_iff hpos).mp hfind
      exact absurd heq (hnowhere position (List.getElem?_eq_some_iff.mp hget).1)

end Holds

end Layout

end ClassFormat
