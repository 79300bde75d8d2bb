import ClassFormat.BitSet
import Mathlib.Data.Nat.Bitwise
/-!
# What is in a set of indices

A packed set is known by the indices it contains. An index is in the set if its bit in its word is
set (`contains_eq`), and a word that is missing counts as zero, so the words are looked at through
`wordAt`, which has a value at every position. Each operation is then described twice: what it does
to the indices in the set, and how much room it leaves.
-/

namespace ClassFormat.BitSet

variable {set : BitSet} {index : Nat}

/-! ## Bits of words -/

/-- The word at a position. Words that are missing count as zero. -/
def wordAt (set : BitSet) (position : Nat) : UInt32 := set.words.getD position 0

theorem toNat_mask (index : Nat) : (mask index).toNat = 2 ^ (31 - index % 32) := by
  have hall : ∀ bit : Fin 32,
      ((0x80000000 : UInt32) >>> UInt32.ofNat bit.val).toNat = 2 ^ (31 - bit.val) := by
    decide
  exact hall ⟨index % 32, Nat.mod_lt _ (by decide)⟩

/-- Masking a word tells whether the bit of the index is set. -/
theorem and_mask_bne_zero (word : UInt32) (index : Nat) :
    (word &&& mask index != 0) = word.toNat.testBit (31 - index % 32) := by
  have hzero : word &&& mask index = 0 ↔ word.toNat.testBit (31 - index % 32) = false := by
    rw [← UInt32.toNat_inj, UInt32.toNat_and, toNat_mask, Nat.and_two_pow, UInt32.toNat_zero]
    cases word.toNat.testBit (31 - index % 32) with
    | false => simp
    | true => simp [Nat.pow_eq_zero]
  rw [bne, Bool.not_eq_eq_eq_not]
  cases hbit : word.toNat.testBit (31 - index % 32) with
  | false => simpa [hbit] using hzero
  | true => simpa [hbit] using hzero

/-- An index is in the set if its bit in its word is set. -/
theorem contains_eq (set : BitSet) (index : Nat) :
    set.contains index = (set.wordAt (index / 32)).toNat.testBit (31 - index % 32) := by
  rw [contains, wordAt, Array.getD_eq_getD_getElem?]
  cases set.words[index / 32]? with
  | none => simp
  | some word => exact and_mask_bne_zero word index

/-- Only indices that there is room for are in the set. -/
theorem lt_capacity_of_contains (h : set.contains index = true) : index < set.capacity := by
  rw [contains] at h
  split at h
  · rename_i word hword
    have hlt := (Array.getElem?_eq_some_iff.mp hword).1
    rw [capacity]
    omega
  · cases h

/-- Listing a set lists the indices in it. -/
theorem mem_toList_iff : index ∈ set.toList ↔ set.contains index = true := by
  rw [toList, List.mem_filter, List.mem_range]
  exact and_iff_right_of_imp lt_capacity_of_contains

/-- A set is listed in ascending order, no index twice. -/
theorem pairwise_toList (set : BitSet) : set.toList.Pairwise (· < ·) :=
  List.pairwise_lt_range.filter _

/-! ## Room -/

/-- So much room, in whole words. -/
theorem capacity_withCapacity (room : Nat) :
    (withCapacity room).capacity = (room + 31) / 32 * 32 := by
  rw [capacity, withCapacity, Array.size_replicate, wordsFor]

/-- Reserving never takes words away. -/
theorem size_words_reserve (set : BitSet) (room : Nat) :
    (set.reserve room).words.size = max set.words.size (wordsFor room) := by
  rw [reserve, Array.size_append, Array.size_replicate]
  omega

/-- Inserting makes room up to the index and no further. -/
theorem size_words_insert (set : BitSet) (index : Nat) :
    (set.insert index).words.size = max set.words.size (wordsFor (index + 1)) := by
  rw [insert, Array.size_modify, size_words_reserve]

/-- An index that there is room for takes no more. -/
theorem capacity_insert (h : index < set.capacity) :
    (set.insert index).capacity = set.capacity := by
  rw [capacity] at h
  rw [capacity, capacity, size_words_insert, wordsFor]
  omega

/-- A union is as long as the longer of the two. -/
theorem size_words_union (set other : BitSet) :
    (set.union other).words.size = max set.words.size other.words.size := by
  have hwords : wordsFor other.capacity = other.words.size := by
    rw [wordsFor, capacity]
    omega
  rw [union, Array.size_mapIdx, size_words_reserve, hwords]

/-- A union has the room of the roomier set. -/
theorem capacity_union (set other : BitSet) :
    (set.union other).capacity = max set.capacity other.capacity := by
  rw [capacity, size_words_union, capacity, capacity]
  omega

/-! ## Indices -/

theorem wordAt_withCapacity (room position : Nat) : (withCapacity room).wordAt position = 0 := by
  rw [wordAt, withCapacity, Array.getD_eq_getD_getElem?, Array.getElem?_replicate]
  split <;> rfl

/-- Room alone puts nothing into a set. -/
theorem contains_withCapacity (room index : Nat) : (withCapacity room).contains index = false := by
  rw [contains_eq, wordAt_withCapacity, UInt32.toNat_zero, Nat.zero_testBit]

/-- The words that room is made for are zero, as they were when they were missing. -/
theorem wordAt_reserve (set : BitSet) (room position : Nat) :
    (set.reserve room).wordAt position = set.wordAt position := by
  rw [wordAt, wordAt, reserve, Array.getD_eq_getD_getElem?, Array.getD_eq_getD_getElem?,
    Array.getElem?_append]
  split
  · rfl
  · rename_i hmissing
    rw [Array.getElem?_eq_none (Nat.le_of_not_lt hmissing), Array.getElem?_replicate]
    split <;> rfl

/-- Inserting sets one bit of one word. -/
theorem wordAt_insert (set : BitSet) (index position : Nat) : (set.insert index).wordAt position
    = if position = index / 32 then set.wordAt position ||| mask index
      else set.wordAt position := by
  have hroom : index / 32 < (set.reserve (index + 1)).words.size := by
    rw [size_words_reserve, wordsFor]
    omega
  rw [← wordAt_reserve set (index + 1), wordAt, insert, Array.getD_eq_getD_getElem?,
    Array.getElem?_modify]
  split
  next heq =>
    subst heq
    rw [if_pos rfl, wordAt, Array.getD_eq_getD_getElem?, Array.getElem?_eq_getElem hroom]
    rfl
  next hne =>
    rw [if_neg (Ne.symm hne), wordAt, Array.getD_eq_getD_getElem?]

/-- Adding an index adds that index. -/
theorem contains_insert (set : BitSet) (index found : Nat) :
    (set.insert index).contains found = (set.contains found || found == index) := by
  rw [contains_eq, contains_eq, wordAt_insert]
  by_cases hword : found / 32 = index / 32
  · rw [if_pos hword, UInt32.toNat_or, Nat.testBit_or, toNat_mask, Nat.testBit_two_pow]
    congr 1
    rw [Bool.eq_iff_iff, decide_eq_true_iff, beq_iff_eq]
    omega
  · have hne : found ≠ index := fun heq => hword (heq ▸ rfl)
    rw [if_neg hword, beq_eq_false_iff_ne.mpr hne, Bool.or_false]

/-- A union joins the two sets word by word. -/
theorem wordAt_union (set other : BitSet) (position : Nat) :
    (set.union other).wordAt position = set.wordAt position ||| other.wordAt position := by
  rw [← wordAt_reserve set other.capacity, wordAt, wordAt, wordAt, union]
  simp only [Array.getD_eq_getD_getElem?, Array.getElem?_mapIdx]
  cases hword : (set.reserve other.capacity).words[position]? with
  | some word => rfl
  | none =>
    -- There is room for all words of the other set, so that one has no word here either.
    have hsize := Array.getElem?_eq_none_iff.mp hword
    have hother : other.words.size ≤ (set.reserve other.capacity).words.size := by
      rw [size_words_reserve, wordsFor, capacity]
      omega
    rw [Array.getElem?_eq_none (Nat.le_trans hother hsize)]
    rfl

/-- A union contains what either set contains. -/
theorem contains_union (set other : BitSet) (index : Nat) :
    (set.union other).contains index = (set.contains index || other.contains index) := by
  rw [contains_eq, contains_eq, contains_eq, wordAt_union, UInt32.toNat_or, Nat.testBit_or]

end ClassFormat.BitSet
