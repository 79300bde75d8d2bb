import ClassFormat.Proofs.Attribute.LocalVariables
import Mathlib.Data.List.SplitBy
/-!
# Runs of entries about one variable

A table that was written is read with each run of neighbouring entries about one variable joined
into one entry. `joined` says so of the whole table: it is split into runs, and each becomes its
first entry with the ranges of all. Reading joins from the last row on, which comes to the same
(`group_eq`), since an entry in front either goes into the first run or is a run of its own.

Looking a variable up does not depend on it. The entries of a run have one slot and one descriptor,
hence one type and one width, so a joined entry covers what one of them covers.
-/

namespace ClassFormat

/-! ## Runs -/

section

variable {α : Type} {r : α → α → Bool}

/-- A list with elements starts with a run that starts with its first element. -/
theorem exists_splitBy_cons (r : α → α → Bool) (next : α) (rest : List α) :
    ∃ run runs, (next :: rest).splitBy r = (next :: run) :: runs := by
  cases hsplit : (next :: rest).splitBy r with
  | nil => exact absurd hsplit (List.splitBy_ne_nil.mpr (List.cons_ne_nil next rest))
  | cons run runs =>
    have hne := List.ne_nil_of_mem_splitBy (hsplit ▸ List.mem_cons_self)
    obtain ⟨head, tail, rfl⟩ := List.exists_cons_of_ne_nil hne
    have hflatten := List.flatten_splitBy r (next :: rest)
    rw [hsplit, List.flatten_cons, List.cons_append, List.cons.injEq] at hflatten
    exact ⟨tail, runs, by rw [hflatten.1]⟩

/-- An element in front that goes along with the next one comes into the first run. -/
theorem splitBy_cons_of_related {first next : α} {rest run : List α} {runs : List (List α)}
    (hsplit : (next :: rest).splitBy r = (next :: run) :: runs) (h : r first next = true) :
    (first :: next :: rest).splitBy r = (first :: next :: run) :: runs := by
  obtain ⟨hflatten, hne, hchains, hapart⟩ := List.splitBy_eq_iff.mp hsplit
  refine List.splitBy_eq_iff.mpr ⟨?_, ?_, ?_, ?_⟩
  · rw [hflatten]
    rfl
  · simpa using hne
  · rw [List.forall_mem_cons] at hchains ⊢
    exact ⟨List.isChain_cons_cons.mpr ⟨h, hchains.1⟩, hchains.2⟩
  -- The first run ends as before, so it is as far from the second.
  · rw [List.isChain_cons] at hapart ⊢
    refine ⟨fun other hother => ?_, hapart.2⟩
    obtain ⟨_, hb, hlast⟩ := hapart.1 other hother
    exact ⟨List.cons_ne_nil _ _, hb, by rwa [List.getLast_cons (List.cons_ne_nil next run)]⟩

/-- An element in front that does not go along with the next one is a run of its own. -/
theorem splitBy_cons_of_not_related {first next : α} (rest : List α) (h : r first next = false) :
    (first :: next :: rest).splitBy r = [first] :: (next :: rest).splitBy r := by
  have hlast : ∀ last ∈ [first].getLast?, r last next = false := by
    intro last hlast
    cases hlast
    exact h
  exact List.splitBy_append_cons rest hlast

end

/-- Whether an entry tells of a slot at an address. -/
def VariableEntry.covers (entry : VariableEntry Span) (slot : UInt16) (address : Nat) : Bool :=
  entry.occupies slot && entry.ranges.any fun span => span.contains address

namespace LocalVariableTable

/-! ## Joining runs -/

/-- The entry of a run: the first one, with the ranges of all. -/
def joinRun : List (VariableEntry Span) → Option (VariableEntry Span)
  | [] => none
  | entry :: others =>
    some { entry with ranges := (entry :: others).flatMap VariableEntry.ranges }

/-- The table with each run of neighbouring entries about one variable joined into one entry. -/
def joined (table : LocalVariableTable) : LocalVariableTable :=
  ⟨(table.entries.splitBy VariableEntry.isSameVariable).filterMap joinRun⟩

/-- A row with no neighbour is joined with nothing. -/
theorem joinRun_singleton (entry : VariableEntry Span) : joinRun [entry] = some entry := by
  have hranges : [entry].flatMap VariableEntry.ranges = entry.ranges := List.append_nil _
  rw [joinRun, hranges]

/-- Joining from the last row on joins the runs. -/
theorem group_eq (entries : List (VariableEntry Span)) :
    group entries = (joined ⟨entries⟩).entries := by
  induction entries with
  | nil => rfl
  | cons entry entries ih =>
    rw [group, List.foldr_cons, ← group, ih]
    cases entries with
    | nil =>
      show [entry] = [[entry]].filterMap joinRun
      rw [List.filterMap_cons_some (joinRun_singleton entry), List.filterMap_nil]
    | cons next rest =>
      obtain ⟨run, runs, hsplit⟩ := exists_splitBy_cons VariableEntry.isSameVariable next rest
      rw [joined, joined, hsplit]
      cases hsame : entry.isSameVariable next with
      | true =>
        rw [splitBy_cons_of_related hsplit hsame]
        exact joinRow_of_same hsame
      | false =>
        rw [splitBy_cons_of_not_related rest hsame, hsplit,
          List.filterMap_cons_some (joinRun_singleton entry)]
        exact joinRow_of_not_same hsame

/-! ## Looking variables up -/

variable {pool : Pool} {slot : UInt16} {address : Nat}

/-- The search takes the first entry that covers the slot and the address. -/
theorem lookup_cons (entry : VariableEntry Span) (entries : List (VariableEntry Span))
    (slot : UInt16) (address : Nat) : (mk (entry :: entries)).lookup slot address
      = if entry.covers slot address then some entry else (mk entries).lookup slot address := by
  have hfind : (mk (entry :: entries)).lookup slot address
      = match entry.covers slot address with
        | true => some entry
        | false => (mk entries).lookup slot address := List.find?_cons
  rw [hfind]
  cases entry.covers slot address <;> rfl

end LocalVariableTable

/-- A sound entry has the type that its descriptor is read as. -/
theorem VariableEntry.Sound.type_eq {pool : Pool} {entry other : VariableEntry Span}
    (h : entry.Sound pool) (hother : other.Sound pool)
    (hdescriptor : entry.descriptor = other.descriptor) : entry.type = other.type := by
  have htext := h.text_eq
  rw [hdescriptor, hother.text_eq, Except.ok.injEq] at htext
  have hparse := FieldType.parse_eq_ok_iff.mpr ⟨h.wellFormed, htext.symm⟩
  rw [FieldType.parse_eq_ok_iff.mpr ⟨hother.wellFormed, rfl⟩] at hparse
  exact (Except.ok.inj hparse).symm

/-- An entry joined with the next one about the same variable covers what one of them covers. -/
theorem VariableEntry.covers_append {row next : VariableEntry Span} (hslot : row.slot = next.slot)
    (htype : row.type = next.type) (slot : UInt16) (address : Nat) :
    covers { row with ranges := row.ranges ++ next.ranges } slot address
      = (row.covers slot address || next.covers slot address) := by
  have hoccupies : next.occupies slot = row.occupies slot := by
    rw [occupies, occupies, hslot, htype]
  rw [covers, covers, covers, hoccupies, List.any_append, Bool.and_or_distrib_left]
  rfl

namespace LocalVariableTable

/-- Joining a row to what follows finds the same variables. -/
theorem lookup_joinRow {row : VariableEntry Span} {others : List (VariableEntry Span)}
    (hrow : row.Sound pool) (h : ∀ entry ∈ others, entry.Sound pool) :
    ((mk (joinRow row others)).lookup slot address).map VariableEntry.subject
      = ((mk (row :: others)).lookup slot address).map VariableEntry.subject := by
  cases others with
  | nil => rfl
  | cons next others =>
    cases hsame : row.isSameVariable next with
    | true =>
      have hsubject := VariableEntry.isSameVariable_iff.mp hsame
      simp only [VariableEntry.subject, Prod.mk.injEq] at hsubject
      have htype := hrow.type_eq (List.forall_mem_cons.mp h).1 hsubject.2.1
      rw [joinRow_of_same hsame, lookup_cons, lookup_cons, lookup_cons,
        VariableEntry.covers_append hsubject.2.2 htype]
      cases row.covers slot address <;> cases next.covers slot address <;>
        simp [VariableEntry.subject, hsubject]
    | false => rw [joinRow_of_not_same hsame]

/-- Joining rows does not change which variables are found. -/
theorem lookup_group {entries : List (VariableEntry Span)}
    (h : ∀ entry ∈ entries, entry.Sound pool) :
    ((mk (group entries)).lookup slot address).map VariableEntry.subject
      = ((mk entries).lookup slot address).map VariableEntry.subject := by
  induction entries with
  | nil => rfl
  | cons entry entries ih =>
    rw [List.forall_mem_cons] at h
    rw [group, List.foldr_cons, ← group, lookup_joinRow h.1 (sound_group h.2), lookup_cons,
      lookup_cons, apply_ite (Option.map VariableEntry.subject), ih h.2,
      apply_ite (Option.map VariableEntry.subject)]

end LocalVariableTable

end ClassFormat
