import ClassFormat.Pool.Basic
import ClassFormat.Proofs.Layout
import Mathlib.Tactic.Common
/-!
# The order in which a pool is laid out

`pool.ranked` is the order that the layout is meant to have: the constants read from a file, then
the priority ones, then all others, each group by slot. A pool is `Valid` if its layout is that, if
no more constants are fixed than there are, and if its index of distinct constants gives the first
slot of each. In a valid pool `pool.Stands id offset` says at which offset a constant stands. A
constant stands at exactly one offset, and no other one stands there.
-/

namespace ClassFormat

namespace Pool

open Layout (totalWidth place)

variable {pool : Pool} {id : ConstantId} {offset : Nat}

/-- The constants by slot. -/
def constants (pool : Pool) : List Constant := pool.entries.toList.map PoolEntry.constant

/-- Whether the constant in a slot is one to be laid out before all that are not. -/
def isPriorityAt (pool : Pool) (slot : Nat) : Bool := pool.entries[slot]?.any PoolEntry.isPriority

/-- The entries, each with its slot. -/
def indexed (pool : Pool) : List (PoolEntry × Nat) := pool.entries.toList.zipIdx

/-- An entry as the layout shows it. -/
def toSlot (tag : PoolTag) (entry : PoolEntry × Nat) : PoolSlot :=
  ⟨⟨tag, entry.2⟩, width entry.1.constant⟩

/-- Whether an entry was read from a file. -/
def isRead (fixed : Nat) (entry : PoolEntry × Nat) : Bool := entry.2 < fixed

/-- The constants in the order of their indices: those read from a file, the priority ones, the
others, and in each group as they were added. -/
def ranked (pool : Pool) : List PoolSlot :=
  let isRead := isRead pool.fixed
  let read := pool.indexed.filter isRead
  let priority := pool.indexed.filter fun entry => !isRead entry && entry.1.isPriority
  let others := pool.indexed.filter fun entry => !isRead entry && !entry.1.isPriority
  (read ++ priority ++ others).map (toSlot pool.tag)

/-- What holds of every pool at any time. -/
structure Valid (pool : Pool) : Prop where
  layout_holds : pool.layout.Holds 1 pool.ranked
  fixed_le : pool.fixed ≤ pool.size
  interned_eq : ∀ constant, pool.interned[constant]?
    = (pool.constants.idxOf? constant).map (ConstantId.mk pool.tag)

/-! ## The ranked constants -/

/-- The first place of a constant does not change when another one is put behind. -/
theorem idxOf?_concat (constants : List Constant) (constant other : Constant) :
    (constants ++ [constant]).idxOf? other = (constants.idxOf? other).or
      (if constant = other then some constants.length else none) := by
  rw [List.idxOf?, List.findIdx?_append, ← List.idxOf?]
  by_cases h : constant = other <;> simp [h]

@[simp] theorem length_constants (pool : Pool) : pool.constants.length = pool.size := by
  simp [constants, size]

/-- A new entry is not marked. -/
theorem isPriorityAt_pushEntry (pool : Pool) (constant : Constant) (slot : Nat) :
    (pool.pushEntry constant).2.isPriorityAt slot = pool.isPriorityAt slot := by
  show ((pool.entries.push ⟨constant, false⟩)[slot]?.any _) = _
  rw [isPriorityAt, Array.getElem?_push]
  split
  · rename_i hslot
    subst hslot
    rw [Array.getElem?_eq_none (Nat.le_refl _)]
    rfl
  · rfl

/-- A slot among the entries is one whose constant and flag are those of the entry. -/
theorem mem_indexed_iff {entry : PoolEntry × Nat} :
    entry ∈ pool.indexed ↔ pool.entries[entry.2]? = some entry.1 := by
  rw [indexed, List.mem_zipIdx_iff_getElem?, Array.getElem?_toList]

/-- Ranking the constants leaves none out and doubles none. -/
theorem ranked_perm (pool : Pool) : pool.ranked.Perm (pool.indexed.map (toSlot pool.tag)) := by
  apply List.Perm.map
  -- The two filters behind the constants that were read part the others by their flags.
  have hunread := List.filter_append_perm (fun entry : PoolEntry × Nat => entry.1.isPriority)
    (pool.indexed.filter fun entry => !isRead pool.fixed entry)
  rw [List.filter_filter, List.filter_filter] at hunread
  rw [List.append_assoc]
  refine List.Perm.trans (List.Perm.append_left _ ?_)
    (List.filter_append_perm (isRead pool.fixed) pool.indexed)
  refine List.Perm.trans (List.Perm.of_eq ?_) hunread
  congr 2 <;> (funext entry; exact Bool.and_comm ..)

/-- A slot is ranked exactly if it shows one of the entries. -/
theorem mem_ranked_iff {slot : PoolSlot} :
    slot ∈ pool.ranked ↔ slot.id.pool = pool.tag ∧ ∃ entry, pool.entries[slot.id.slot]? = some entry
      ∧ slot.width = width entry.constant := by
  rw [pool.ranked_perm.mem_iff, List.mem_map]
  constructor
  · rintro ⟨entry, hentry, rfl⟩
    exact ⟨rfl, entry.1, mem_indexed_iff.mp hentry, rfl⟩
  · rintro ⟨htag, entry, hentry, hwidth⟩
    refine ⟨(entry, slot.id.slot), mem_indexed_iff.mpr hentry, ?_⟩
    rw [toSlot, ← htag, ← hwidth]

/-- The order lists as many constants as there are. -/
theorem length_ranked (pool : Pool) : pool.ranked.length = pool.size := by
  rw [pool.ranked_perm.length_eq]
  simp [indexed, size]

/-- The indices that the constants take are as many as their widths. -/
theorem totalWidth_ranked (pool : Pool) : totalWidth pool.ranked = totalWidth pool.constants := by
  have hperm := (pool.ranked_perm.map width).sum_nat
  rw [totalWidth, hperm, totalWidth, constants, indexed, List.map_map, List.map_map]
  congr 1
  have hwidth : width ∘ toSlot pool.tag = (width ∘ PoolEntry.constant) ∘ Prod.fst := rfl
  rw [hwidth, ← List.map_map, List.zipIdx_map_fst]

/-- Every constant takes at least one index. -/
theorem width_pos (constant : Constant) : 0 < width constant := by
  cases constant <;> exact Nat.zero_lt_succ _

/-- Every ranked constant takes at least one index. -/
theorem ranked_width_pos (pool : Pool) : ∀ slot ∈ pool.ranked, 0 < width slot := by
  intro slot hslot
  obtain ⟨-, entry, -, hwidth⟩ := mem_ranked_iff.mp hslot
  show 0 < slot.width
  rw [hwidth]
  exact width_pos entry.constant

/-- No slot is ranked twice. -/
theorem ranked_slots_nodup (pool : Pool) : (pool.ranked.map fun slot => slot.id.slot).Nodup := by
  rw [(pool.ranked_perm.map fun slot => slot.id.slot).nodup_iff, List.map_map]
  have hslot : (fun slot : PoolSlot => slot.id.slot) ∘ toSlot pool.tag = Prod.snd := rfl
  rw [hslot, indexed, List.zipIdx_map_snd]
  exact List.nodup_range'

/-! ## The constants read from a file -/

/-- Constants in the slots from 0 on, as the layout shows them. -/
def slotsOf (tag : PoolTag) (constants : List Constant) : List PoolSlot :=
  constants.zipIdx.map fun (constant, slot) => ⟨⟨tag, slot⟩, width constant⟩

/-- A constant put behind the others has the next slot. -/
theorem slotsOf_concat (tag : PoolTag) (constants : List Constant) (constant : Constant) :
    slotsOf tag (constants ++ [constant])
      = slotsOf tag constants ++ [⟨⟨tag, constants.length⟩, width constant⟩] := by
  simp [slotsOf, List.zipIdx_append]

/-- The slot of a constant is its place. -/
theorem getElem?_slotsOf (tag : PoolTag) (constants : List Constant) (slot : Nat) :
    (slotsOf tag constants)[slot]?
      = constants[slot]?.map fun constant => ⟨⟨tag, slot⟩, width constant⟩ := by
  simp [slotsOf, List.getElem?_zipIdx, Function.comp_def]

theorem slotsOf_take (tag : PoolTag) (constants : List Constant) (count : Nat) :
    slotsOf tag (constants.take count) = (slotsOf tag constants).take count := by
  apply List.ext_getElem?
  intro slot
  rw [getElem?_slotsOf, List.getElem?_take, List.getElem?_take, getElem?_slotsOf]
  split <;> rfl

/-- As the layout shows them, constants take the indices that they take. -/
theorem totalWidth_take_slotsOf (tag : PoolTag) (constants : List Constant) (k : Nat) :
    totalWidth ((slotsOf tag constants).take k) = totalWidth (constants.take k) := by
  rw [totalWidth, totalWidth, slotsOf, ← List.map_take, List.map_map]
  have hwidth : (width ∘ fun entry : Constant × Nat => PoolSlot.mk ⟨tag, entry.2⟩ (width entry.1))
      = width ∘ Prod.fst := rfl
  rw [hwidth, ← List.map_map, List.map_take, List.zipIdx_map_fst]

/-- The first `count` constants have the slots below `count`. -/
theorem slot_lt_of_mem_take {tag : PoolTag} {constants : List Constant} {count : Nat}
    {slot : PoolSlot} (h : slot ∈ (slotsOf tag constants).take count) : slot.id.slot < count := by
  rw [← slotsOf_take] at h
  obtain ⟨place, hget⟩ := List.mem_iff_getElem?.mp h
  rw [getElem?_slotsOf, Option.map_eq_some_iff] at hget
  obtain ⟨constant, hget, rfl⟩ := hget
  have hlt := (List.getElem?_eq_some_iff.mp hget).1
  rw [List.length_take] at hlt
  exact (Nat.lt_min.mp hlt).1

/-- The constants behind the first `count` have no slot below `count`. -/
theorem le_slot_of_mem_drop {tag : PoolTag} {constants : List Constant} {count : Nat}
    {slot : PoolSlot} (h : slot ∈ (slotsOf tag constants).drop count) :
    count ≤ slot.id.slot ∧ slot.id.pool = tag := by
  obtain ⟨place, hget⟩ := List.mem_iff_getElem?.mp h
  rw [List.getElem?_drop, getElem?_slotsOf, Option.map_eq_some_iff] at hget
  obtain ⟨constant, -, rfl⟩ := hget
  exact ⟨Nat.le_add_right .., rfl⟩

/-- The constants in the first `count` slots are the first `count`. -/
theorem filter_slotsOf_lt (tag : PoolTag) (constants : List Constant) (count : Nat) :
    (slotsOf tag constants).filter (fun slot => slot.id.slot < count)
      = (slotsOf tag constants).take count := by
  conv_lhs => rw [← List.take_append_drop count (slotsOf tag constants)]
  rw [List.filter_append, List.filter_eq_self.mpr, List.filter_eq_nil_iff.mpr, List.append_nil]
  · intro slot hslot
    simpa using (le_slot_of_mem_drop hslot).1
  · intro slot hslot
    simpa using slot_lt_of_mem_take hslot

/-- The constants in the other slots are those behind the first `count`. -/
theorem filter_slotsOf_not_lt (tag : PoolTag) (constants : List Constant) (count : Nat) :
    (slotsOf tag constants).filter (fun slot => !decide (slot.id.slot < count))
      = (slotsOf tag constants).drop count := by
  conv_lhs => rw [← List.take_append_drop count (slotsOf tag constants)]
  rw [List.filter_append, List.filter_eq_nil_iff.mpr, List.filter_eq_self.mpr, List.nil_append]
  · intro slot hslot
    simpa using (le_slot_of_mem_drop hslot).1
  · intro slot hslot
    simpa using slot_lt_of_mem_take hslot

/-- The mark of an entry is that of its slot. -/
theorem isPriorityAt_of_mem_indexed {entry : PoolEntry × Nat} (h : entry ∈ pool.indexed) :
    pool.isPriorityAt entry.2 = entry.1.isPriority := by
  rw [isPriorityAt, mem_indexed_iff.mp h]
  rfl

/-- The order of a pool, by its constants and marks: what was read comes first as it was in the
file, and of what was added the marked constants come before the others. -/
theorem ranked_eq (pool : Pool) :
    pool.ranked = (slotsOf pool.tag pool.constants).take pool.fixed
      ++ ((slotsOf pool.tag pool.constants).drop pool.fixed).filter
        (fun slot => pool.isPriorityAt slot.id.slot)
      ++ ((slotsOf pool.tag pool.constants).drop pool.fixed).filter
        (fun slot => !pool.isPriorityAt slot.id.slot) := by
  have hslots : pool.indexed.map (toSlot pool.tag) = slotsOf pool.tag pool.constants := by
    rw [indexed, slotsOf, constants, List.zipIdx_map, List.map_map]
    rfl
  -- Whether an entry is kept can be told by its slot.
  have hfilter {keeps : PoolEntry × Nat → Bool} {wanted : PoolSlot → Bool}
      (h : ∀ entry ∈ pool.indexed, keeps entry = wanted (toSlot pool.tag entry)) :
      (pool.indexed.filter keeps).map (toSlot pool.tag)
        = (slotsOf pool.tag pool.constants).filter wanted := by
    rw [← hslots, List.filter_map, List.filter_congr h]
    rfl
  rw [ranked, List.map_append, List.map_append, ← filter_slotsOf_lt, ← filter_slotsOf_not_lt,
    List.filter_filter, List.filter_filter]
  congr 1
  · congr 1
    · exact hfilter fun entry _ => rfl
    · refine hfilter fun entry hentry => ?_
      rw [← isPriorityAt_of_mem_indexed hentry, Bool.and_comm]
      rfl
  · refine hfilter fun entry hentry => ?_
    rw [← isPriorityAt_of_mem_indexed hentry, Bool.and_comm]
    rfl

/-- The order of a pool starts with the constants read from a file, in the order of the file. -/
theorem ranked_eq_append (pool : Pool) : ∃ added,
    pool.ranked = slotsOf pool.tag (pool.constants.take pool.fixed) ++ added := by
  rw [ranked_eq, List.append_assoc, slotsOf_take]
  exact ⟨_, rfl⟩

/-- A pool of constants that were all read is in the order of the file. -/
theorem ranked_of_all_read (pool : Pool) (h : pool.fixed = pool.size) :
    pool.ranked = slotsOf pool.tag pool.constants := by
  obtain ⟨added, hranked⟩ := pool.ranked_eq_append
  have htake : pool.constants.take pool.fixed = pool.constants := by
    rw [h, ← length_constants, List.take_length]
  rw [htake] at hranked
  -- The order is as long as the pool, so nothing comes behind the constants that were read.
  have hlength := congrArg List.length hranked
  rw [length_ranked, List.length_append, slotsOf, List.length_map, List.length_zipIdx,
    length_constants] at hlength
  have hadded : added = [] := List.eq_nil_of_length_eq_zero (by omega)
  rw [hranked, hadded, List.append_nil]

/-! ## Laying out -/

/-- Pushing the wanted entries is appending them. -/
theorem holds_layOutBehind (pool : Pool) {layout : Layout PoolSlot 0} {elements : List PoolSlot}
    (h : layout.Holds 1 elements) (isWanted : Nat → PoolEntry → Bool) :
    (pool.layOutBehind isWanted layout).Holds 1
      (elements ++ (pool.indexed.filter fun entry => isWanted entry.2 entry.1).map
        (toSlot pool.tag)) := by
  rw [layOutBehind, ← Array.foldl_toList, Array.toList_zipIdx, ← indexed]
  -- The induction is on the entries, and the layout grows with what was pushed.
  generalize pool.indexed = entries
  induction entries generalizing layout elements with
  | nil => simpa using h
  | cons entry entries ih =>
    simp only [List.foldl_cons, List.filter_cons]
    by_cases hwanted : isWanted entry.2 entry.1 = true
    · simp only [if_pos hwanted, List.map_cons]
      rw [List.append_cons]
      exact ih (h.push _)
    · simp only [if_neg hwanted]
      exact ih h

/-- Laying a pool out anew gives the layout it is meant to have. -/
theorem holds_layOut (pool : Pool) : pool.layOut.Holds 1 pool.ranked := by
  have hread := holds_layOutBehind pool (Layout.holds_startingAt 1)
    (fun slot _ => slot < pool.fixed)
  have hpriority := holds_layOutBehind pool hread
    (fun slot entry => !decide (slot < pool.fixed) && entry.isPriority)
  have hothers := holds_layOutBehind pool hpriority
    (fun slot entry => !decide (slot < pool.fixed) && !entry.isPriority)
  rw [List.nil_append, ← List.map_append, ← List.map_append] at hothers
  exact hothers

/-! ## Where constants stand -/

/-- A constant stands at an offset of the layout. -/
def Stands (pool : Pool) (id : ConstantId) (offset : Nat) : Prop :=
  ∃ slot, (offset, slot) ∈ pool.layout.toList ∧ slot.id = id

/-- A pool gave out the handles with its tag and a slot that is taken. -/
theorem owns_iff : pool.owns id = true ↔ id.pool = pool.tag ∧ id.slot < pool.size := by
  simp [owns, size]

/-- A handle leads to a constant exactly if the constant is in its slot. -/
theorem constant_eq_ok_iff {constant : Constant} : pool.constant id = .ok constant
    ↔ id.pool = pool.tag ∧ pool.constants[id.slot]? = some constant := by
  rw [Pool.constant, constants, List.getElem?_map, Array.getElem?_toList]
  cases pool.entries[id.slot]? with
  | none => simp
  | some entry => by_cases htag : id.pool = pool.tag <;> simp [htag]

/-- A handle leads to a constant exactly if the pool gave it out. -/
theorem exists_constant_iff :
    (∃ constant, pool.constant id = .ok constant) ↔ pool.owns id = true := by
  simp only [constant_eq_ok_iff, owns_iff, exists_and_left, ← length_constants, and_congr_right_iff]
  intro htag
  constructor
  · rintro ⟨constant, hget⟩
    exact (List.getElem?_eq_some_iff.mp hget).1
  · intro hlt
    exact ⟨_, List.getElem?_eq_getElem hlt⟩

namespace Valid

/-- What stands at an offset is the constant whose predecessors take up the offsets before it. -/
theorem stands_iff (h : pool.Valid) : pool.Stands id offset ↔ ∃ (k : Nat) (slot : PoolSlot),
    pool.ranked[k]? = some slot ∧ slot.id = id
      ∧ offset = 1 + totalWidth (pool.ranked.take k) := by
  rw [Stands, h.layout_holds.toList_eq]
  constructor
  · rintro ⟨slot, hmem, hid⟩
    obtain ⟨k, hget⟩ := List.mem_iff_getElem?.mp hmem
    obtain ⟨hget, hoffset⟩ := Layout.getElem?_place_eq_some.mp hget
    exact ⟨k, slot, hget, hid, hoffset⟩
  · rintro ⟨k, slot, hget, hid, hoffset⟩
    have hplace := Layout.getElem?_place_eq_some.mpr ⟨hget, hoffset⟩
    exact ⟨slot, List.mem_of_getElem? hplace, hid⟩

/-- The slot that shows a constant has its width. -/
theorem width_of_ranked {k : Nat} {slot : PoolSlot} {constant : Constant}
    (hget : pool.ranked[k]? = some slot) (hconstant : pool.constant slot.id = .ok constant) :
    width slot = width constant := by
  obtain ⟨-, entry, hentry, hwidth⟩ := mem_ranked_iff.mp (List.mem_of_getElem? hget)
  obtain ⟨-, hslot⟩ := constant_eq_ok_iff.mp hconstant
  rw [constants, List.getElem?_map, Array.getElem?_toList, hentry] at hslot
  cases hslot
  exact hwidth

/-- The constants that stand somewhere are those the pool gave out handles on. -/
theorem exists_stands_iff (h : pool.Valid) :
    (∃ offset, pool.Stands id offset) ↔ pool.owns id = true := by
  constructor
  · rintro ⟨offset, hstands⟩
    obtain ⟨k, slot, hget, rfl, -⟩ := h.stands_iff.mp hstands
    obtain ⟨htag, entry, hentry, -⟩ := mem_ranked_iff.mp (List.mem_of_getElem? hget)
    exact owns_iff.mpr ⟨htag, (Array.getElem?_eq_some_iff.mp hentry).1⟩
  · intro howns
    obtain ⟨htag, hlt⟩ := owns_iff.mp howns
    have hentry : pool.entries[id.slot]? = some pool.entries[id.slot] :=
      Array.getElem?_eq_getElem hlt
    have hmem : (⟨id, width pool.entries[id.slot].constant⟩ : PoolSlot) ∈ pool.ranked :=
      mem_ranked_iff.mpr ⟨htag, _, hentry, rfl⟩
    obtain ⟨k, hget⟩ := List.mem_iff_getElem?.mp hmem
    exact ⟨_, h.stands_iff.mpr ⟨k, _, hget, rfl, rfl⟩⟩

/-- A constant ends at the end of the layout at the latest. -/
theorem stands_add_width_le (h : pool.Valid) {constant : Constant}
    (hstands : pool.Stands id offset) (hconstant : pool.constant id = .ok constant) :
    0 < offset ∧ offset + width constant ≤ pool.layout.stop := by
  obtain ⟨k, slot, hget, rfl, rfl⟩ := h.stands_iff.mp hstands
  have hend := Layout.totalWidth_take_succ hget
  have hle := Layout.totalWidth_take_le pool.ranked (k + 1)
  rw [width_of_ranked hget hconstant] at hend
  rw [h.layout_holds.stop_eq]
  omega

/-- An offset before the end at which no constant stands is the second one of a constant. -/
theorem stands_or_inside (h : pool.Valid) (hpos : 0 < offset) (hlt : offset < pool.layout.stop) :
    (∃ id, pool.Stands id offset) ∨ ∃ id constant first, pool.Stands id first
      ∧ pool.constant id = .ok constant ∧ first < offset ∧ offset < first + width constant := by
  rw [h.layout_holds.stop_eq] at hlt
  obtain ⟨k, slot, hget, hlow, hhigh⟩ := Layout.exists_covering hpos hlt
  have hstands := h.stands_iff.mpr ⟨k, slot, hget, rfl, rfl⟩
  rcases Nat.lt_or_eq_of_le hlow with hlow | heq
  · obtain ⟨constant, hconstant⟩ :=
      exists_constant_iff.mpr (h.exists_stands_iff.mp ⟨_, hstands⟩)
    rw [width_of_ranked hget hconstant] at hhigh
    exact .inr ⟨slot.id, constant, _, hstands, hconstant, hlow, hhigh⟩
  · rw [heq] at hstands
    exact .inl ⟨slot.id, hstands⟩

/-- Inside a constant no other one stands. -/
theorem not_stands_inside (h : pool.Valid) {first : Nat} {constant : Constant}
    (hstands : pool.Stands id first) (hconstant : pool.constant id = .ok constant)
    (hlow : first < offset) (hhigh : offset < first + width constant) (other : ConstantId) :
    ¬ pool.Stands other offset := by
  intro hother
  obtain ⟨i, slot, hi, rfl, rfl⟩ := h.stands_iff.mp hstands
  obtain ⟨j, second, hj, rfl, rfl⟩ := h.stands_iff.mp hother
  rw [← width_of_ranked hi hconstant] at hhigh
  have hpos := pool.ranked_width_pos second (List.mem_of_getElem? hj)
  -- The offset lies inside both, so the two are one, and it stands at its first offset only.
  have hij : i = j := Layout.covering_unique hi (Nat.le_of_lt hlow) hhigh hj (Nat.le_refl _)
    (by omega)
  rw [hij] at hlow
  exact Nat.lt_irrefl _ hlow

/-- Looking up an index finds the constant that stands there. -/
theorem idAt_eq_ok_iff (h : pool.Valid) {index : UInt16} :
    pool.idAt index = .ok id ↔ pool.Stands id index.toNat := by
  have hfind {position : Nat} {slot : PoolSlot} :
      pool.layout.find? index.toNat = some (position, slot) ↔ pool.ranked[position]? = some slot
        ∧ index.toNat = 1 + totalWidth (pool.ranked.take position) :=
    h.layout_holds.find?_eq_some_iff pool.ranked_width_pos
  rw [h.stands_iff, idAt]
  constructor
  · intro hok
    split at hok
    · rename_i position slot hfound
      obtain ⟨hget, hoffset⟩ := hfind.mp hfound
      cases hok
      exact ⟨position, slot, hget, rfl, hoffset⟩
    · cases hok
  · rintro ⟨position, slot, hget, rfl, hoffset⟩
    rw [hfind.mpr ⟨hget, hoffset⟩]

end Valid

/-- Looking up an index fails for one reason only: no constant stands there. -/
theorem idAt_eq_error {index : UInt16} {cause : Error} (h : pool.idAt index = .error cause) :
    cause = .invalidConstantIndex index := by
  rw [idAt] at h
  split at h <;> cases h
  rfl

end Pool

end ClassFormat
