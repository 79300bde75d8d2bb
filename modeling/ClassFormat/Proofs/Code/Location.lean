import ClassFormat.Code.Location
import Mathlib.Tactic.Common
/-!
# Decided locations and ranges

A range has a span exactly if it is the range over that span, and the span is not empty.
-/

namespace ClassFormat

theorem Location.offset?_eq_some_iff {location : Location} {offset : Nat} :
    location.offset? = some offset ↔ location = .fixed offset := by
  cases location <;> simp [offset?]

namespace LocationRange

variable {range : LocationRange} {span : Span} {ranges : List LocationRange} {spans : List Span}

/-- Whether both ends of a range are offsets, the first one less than the second. -/
def isDecided : LocationRange → Bool
  | ⟨.fixed start, .fixed stop⟩ => start < stop
  | _ => false

theorem span?_eq_some_iff :
    range.span? = some span ↔ range = ofSpan span ∧ span.start < span.stop := by
  simp only [span?, Option.bind_eq_bind, Option.bind_eq_some_iff, Option.ite_none_right_eq_some,
    Option.some.injEq, Location.offset?_eq_some_iff]
  constructor
  · rintro ⟨start, hstart, stop, hstop, hlt, rfl⟩
    refine ⟨?_, hlt⟩
    rw [ofSpan, ← hstart, ← hstop]
  · rintro ⟨rfl, hlt⟩
    exact ⟨span.start, rfl, span.stop, rfl, hlt, rfl⟩

/-- Ranges have spans together exactly if they are the ranges over these. -/
theorem mapM_span?_eq_some_iff : ranges.mapM span? = some spans
    ↔ ranges = spans.map ofSpan ∧ ∀ span ∈ spans, span.start < span.stop := by
  induction ranges generalizing spans with
  | nil => cases spans <;> simp
  | cons range ranges ih =>
    simp only [List.mapM_cons, Option.bind_eq_bind, Option.bind_eq_some_iff, ih, span?_eq_some_iff]
    constructor
    · rintro ⟨first, ⟨rfl, hfirst⟩, others, ⟨rfl, hothers⟩, heq⟩
      cases heq
      exact ⟨rfl, List.forall_mem_cons.mpr ⟨hfirst, hothers⟩⟩
    · rintro ⟨heq, hall⟩
      cases spans with
      | nil => cases heq
      | cons first others =>
        rw [List.forall_mem_cons] at hall
        rw [List.map_cons, List.cons.injEq] at heq
        exact ⟨first, ⟨heq.1, hall.1⟩, others, ⟨heq.2, hall.2⟩, rfl⟩

theorem isDecided_iff : range.isDecided = true ↔ ∃ span, range.span? = some span := by
  obtain ⟨start, stop⟩ := range
  cases start <;> cases stop <;> simp [span?, Location.offset?, isDecided]

/-- Ranges are all decided exactly if they have spans together. -/
theorem all_isDecided_iff :
    ranges.all isDecided = true ↔ ∃ spans, ranges.mapM span? = some spans := by
  induction ranges with
  | nil => exact iff_of_true rfl ⟨[], rfl⟩
  | cons range ranges ih =>
    rw [List.all_cons, Bool.and_eq_true, ih, isDecided_iff]
    simp only [List.mapM_cons, Option.bind_eq_bind, Option.bind_eq_some_iff]
    constructor
    · rintro ⟨⟨first, hfirst⟩, others, hothers⟩
      exact ⟨first :: others, first, hfirst, others, hothers, rfl⟩
    · rintro ⟨_, first, hfirst, others, hothers, -⟩
      exact ⟨⟨first, hfirst⟩, others, hothers⟩

end LocationRange

end ClassFormat
