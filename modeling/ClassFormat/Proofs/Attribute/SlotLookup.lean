import ClassFormat.Proofs.Attribute.Leniency
/-!
# Which variable is in a slot

A variable takes its slot, and the next one, too, if it is a `long` or a `double`
(`VariableEntry.Takes`). Looking a slot up at an address is meant to find the first entry of the
table that takes the slot and has a range around the address (`VariableEntry.LivesIn`).

The slots of an entry are compared as a stretch that ends before its last bound, and the bound is
kept to 16 bits. So the last slot there is lies in no stretch: nothing is ever found in it, although
tables may have entries for it. In every other slot exactly the first entry that lives there is
found.
-/

namespace ClassFormat

/-- The last of the slots. -/
def lastSlot : UInt16 := 0xffff

/-- A type takes two slots if it is `long` or `double`, and one otherwise. -/
theorem FieldType.width_eq (type : FieldType) :
    width type = if type = .base .long ∨ type = .base .double then 2 else 1 := by
  cases type with
  | base type => cases type <;> rfl
  | object | array => rfl

namespace VariableEntry

variable {entry : VariableEntry Span} {slot : UInt16} {address : Nat}

/-- The slots of a variable: its own one, and the next one, too, for `long` and `double`. -/
def Takes (entry : VariableEntry Span) (slot : Nat) : Prop :=
  slot = entry.slot.toNat ∨ (entry.type = .base .long ∨ entry.type = .base .double)
    ∧ slot = entry.slot.toNat + 1

/-- The variable takes the slot, and the address lies in one of its ranges. -/
def LivesIn (entry : VariableEntry Span) (slot : UInt16) (address : Nat) : Prop :=
  entry.Takes slot.toNat ∧ ∃ span ∈ entry.ranges, span.start ≤ address ∧ address < span.stop

/-- The slots of a variable are as many as its type is wide. -/
theorem takes_iff {slot : Nat} : entry.Takes slot
    ↔ entry.slot.toNat ≤ slot ∧ slot < entry.slot.toNat + width entry.type := by
  rw [Takes, FieldType.width_eq]
  split
  · rename_i hdouble
    rw [and_iff_right hdouble]
    omega
  · rename_i hsingle
    rw [or_iff_left fun hnext => hsingle hnext.1]
    omega

/-- The last slot is the one whose successor does not fit in two bytes. -/
theorem eq_lastSlot_iff : slot = lastSlot ↔ ¬ slot.toNat < UInt16.size - 1 := by
  have hlt := slot.toNat_lt
  rw [← UInt16.toNat_inj]
  show slot.toNat = 65535 ↔ ¬ slot.toNat < 65535
  omega

/-- The last slot is left out of the slots that an entry is found in. -/
theorem occupies_iff :
    entry.occupies slot = true ↔ slot ≠ lastSlot ∧ entry.Takes slot.toNat := by
  rw [occupies, Bool.and_eq_true, decide_eq_true_iff, decide_eq_true_iff, Nat.lt_min, takes_iff,
    ne_eq, eq_lastSlot_iff, not_not]
  tauto

/-- A range contains the address it begins at and not the one it ends at. -/
theorem exists_contains_iff : (entry.ranges.any fun span => span.contains address) = true
    ↔ ∃ span ∈ entry.ranges, span.start ≤ address ∧ address < span.stop := by
  simp only [List.any_eq_true, Span.contains, Bool.and_eq_true, decide_eq_true_iff]

/-- What the table looks for in an entry. -/
theorem found_iff : (entry.occupies slot && entry.ranges.any fun span => span.contains address)
    = true ↔ slot ≠ lastSlot ∧ entry.LivesIn slot address := by
  rw [Bool.and_eq_true, occupies_iff, exists_contains_iff, LivesIn, and_assoc]

end VariableEntry

namespace LocalVariableTable

/-- **Slot lookup, exactly.** In every slot but the last one, at every address, the first entry of
the table is found that takes the slot and has a range around the address, and nothing is found if
there is no such entry. In the last slot nothing is found. -/
theorem lookup_unless_last (table : LocalVariableTable) (slot : UInt16) (address : Nat) :
    (∀ entry, table.lookup slot address = some entry ↔ slot ≠ lastSlot
      ∧ entry.LivesIn slot address ∧ ∃ before behind, table.entries = before ++ entry :: behind
        ∧ ∀ earlier ∈ before, ¬ earlier.LivesIn slot address)
    ∧ (table.lookup slot address = none
      ↔ slot = lastSlot ∨ ∀ entry ∈ table.entries, ¬ entry.LivesIn slot address) := by
  constructor
  · intro entry
    rw [lookup, List.find?_eq_some_iff_append, VariableEntry.found_iff, and_assoc]
    refine and_congr_right fun hslot => and_congr_right fun _ => ?_
    -- Away from the last slot, what is passed over is what does not live there.
    have hpassed (earlier : VariableEntry Span) :
        (!(earlier.occupies slot && earlier.ranges.any fun span => span.contains address)) = true
          ↔ ¬ earlier.LivesIn slot address := by
      rw [Bool.not_eq_true', ← Bool.not_eq_true, VariableEntry.found_iff, and_iff_right hslot]
    simp only [hpassed]
  · simp only [lookup, List.find?_eq_none, VariableEntry.found_iff, not_and]
    by_cases hslot : slot = lastSlot
    · simp [hslot]
    · simp [hslot]

/-- An entry for the last slot is read off a file, and lives there, but is not found. -/
theorem last_slot_passed_over : ∃ table notices,
    (∀ rest, (LocalVariableTable.read (Pool.ofOne (.utf8 "I"))).Reads
      ([0, 1, 0, 0, 0, 4, 0, 1, 0, 1, 0xff, 0xff] ++ rest) table rest notices)
    ∧ (∃ entry, table.entries = [entry] ∧ entry.slot = lastSlot
      ∧ entry.LivesIn lastSlot 0)
    ∧ table.lookup lastSlot 0 = none := by
  have hentries : group (entriesOf (Pool.ofOne (.utf8 "I")) [⟨0, 4, 1, 1, 0xffff⟩])
      = [⟨⟨⟨⟨0⟩, 0⟩⟩, ⟨⟨⟨0⟩, 0⟩⟩, .base .int, lastSlot, [⟨0, 5⟩]⟩] := by decide +kernel
  refine ⟨_, _, @reads_rows (Pool.ofOne (.utf8 "I")) [⟨0, 4, 1, 1, 0xffff⟩] 1 rfl,
    ⟨_, hentries, rfl, .inl rfl, ⟨0, 5⟩, List.mem_singleton_self _, by decide⟩, ?_⟩
  rw [hentries]
  rfl

end LocalVariableTable

end ClassFormat
