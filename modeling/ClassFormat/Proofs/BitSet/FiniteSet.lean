import ClassFormat.Proofs.BitSet
import Mathlib.Data.Finset.Filter
import Mathlib.Data.Finset.Lattice.Lemmas
import Mathlib.Data.Finset.Range
import Mathlib.Data.List.DropRight
/-!
# Packed sets as finite sets

`set.indices` is the finite set of the indices in a packed set. Every operation on packed sets is
one on finite sets: adding an index is `insert`, joining is `∪`, to intersect is to have a common
element, and two packed sets are equal exactly if their finite sets are, however much room they
have.

Sets with the same indices have the same word at every position, counting missing ones as zero
(`wordAt_eq_iff`), so what is left of them without zeros at the end is the same
(`significantWords_eq_iff`). `Construction` is the syntax of the ways to make a set, and
`Construction.indices_build` and `Construction.capacity_build` say what a set that was made in one
of these ways contains, and how much room it has.
-/

namespace ClassFormat.BitSet

variable {set other : BitSet} {index : Nat}

/-- The indices in a set. -/
def indices (set : BitSet) : Finset Nat := {index ∈ Finset.range set.capacity | set.contains index}

/-- The indices of a set are those it contains. -/
theorem mem_indices_iff : index ∈ set.indices ↔ set.contains index = true := by
  unfold indices
  rw [Finset.mem_filter, Finset.mem_range]
  exact and_iff_right_of_imp lt_capacity_of_contains

theorem indices_withCapacity (room : Nat) : (withCapacity room).indices = ∅ := by
  refine Finset.eq_empty_of_forall_notMem fun index hmem => ?_
  rw [mem_indices_iff, contains_withCapacity] at hmem
  cases hmem

/-- Inserting an index adds it to the indices and takes none away. -/
theorem indices_insert (set : BitSet) (index : Nat) :
    (set.insert index).indices = Insert.insert index set.indices := by
  ext found
  rw [Finset.mem_insert, mem_indices_iff, mem_indices_iff, contains_insert, Bool.or_eq_true,
    beq_iff_eq, or_comm]

/-- The indices of a union are those of either set. -/
theorem indices_union (set other : BitSet) :
    (set.union other).indices = set.indices ∪ other.indices := by
  ext found
  rw [Finset.mem_union, mem_indices_iff, mem_indices_iff, mem_indices_iff, contains_union,
    Bool.or_eq_true]

/-! ## Words and the indices in them -/

/-- The index of a bit in the word at a position. -/
theorem contains_bit (set : BitSet) {position bit : Nat} (hbit : bit < 32) :
    set.contains (32 * position + (31 - bit)) = (set.wordAt position).toNat.testBit bit := by
  have hword : (32 * position + (31 - bit)) / 32 = position := by omega
  have hrest : 31 - (32 * position + (31 - bit)) % 32 = bit := by omega
  rw [contains_eq, hword, hrest]

/-- A word has no bits from 32 on. -/
theorem lt_of_testBit {word : UInt32} {bit : Nat} (h : word.toNat.testBit bit = true) :
    bit < 32 := by
  rcases Nat.lt_or_ge bit 32 with hlt | hge
  · exact hlt
  · have hpow : 2 ^ 32 ≤ 2 ^ bit := Nat.pow_le_pow_right (by omega) hge
    rw [Nat.testBit_lt_two_pow (Nat.lt_of_lt_of_le word.toNat_lt hpow)] at h
    cases h

/-- Words are equal if they have the same bits. -/
theorem eq_of_testBit {word second : UInt32}
    (h : ∀ bit < 32, word.toNat.testBit bit = second.toNat.testBit bit) : word = second := by
  apply UInt32.toNat_inj.mp
  apply Nat.eq_of_testBit_eq
  intro bit
  rw [Bool.eq_iff_iff]
  constructor
  · intro hword
    rw [← h bit (lt_of_testBit hword)]
    exact hword
  · intro hsecond
    rw [h bit (lt_of_testBit hsecond)]
    exact hsecond

/-- A word that is not zero has a bit. -/
theorem ne_zero_iff {word : UInt32} :
    word ≠ 0 ↔ ∃ bit < 32, word.toNat.testBit bit = true := by
  constructor
  · intro hne
    by_contra hnone
    refine hne (eq_of_testBit fun bit hbit => ?_)
    rw [UInt32.toNat_zero, Nat.zero_testBit, ← Bool.not_eq_true]
    exact fun hset => hnone ⟨bit, hbit, hset⟩
  · rintro ⟨bit, -, hset⟩ rfl
    rw [UInt32.toNat_zero, Nat.zero_testBit] at hset
    cases hset

/-- Sets have the same words exactly if they have the same indices. -/
theorem wordAt_eq_iff :
    (∀ position, set.wordAt position = other.wordAt position) ↔ set.indices = other.indices := by
  constructor
  · intro hwords
    ext index
    rw [mem_indices_iff, mem_indices_iff, contains_eq, contains_eq, hwords]
  · intro hindices position
    refine eq_of_testBit fun bit hbit => ?_
    rw [← contains_bit set hbit, ← contains_bit other hbit, Bool.eq_iff_iff, ← mem_indices_iff,
      ← mem_indices_iff, hindices]

/-- A set without indices is one without a word that is not zero. -/
theorem indices_eq_empty_iff : set.indices = ∅ ↔ ∀ position, set.wordAt position = 0 := by
  rw [← indices_withCapacity 0, ← wordAt_eq_iff]
  simp only [wordAt_withCapacity]

theorem wordAt_of_lt {position : Nat} (h : position < set.words.size) :
    set.wordAt position = set.words[position] := by
  rw [wordAt, Array.getD_eq_getD_getElem?, Array.getElem?_eq_getElem h, Option.getD_some]

/-- Behind the last word every bit is clear. -/
theorem wordAt_of_size_le {position : Nat} (h : set.words.size ≤ position) :
    set.wordAt position = 0 := by
  rw [wordAt, Array.getD_eq_getD_getElem?, Array.getElem?_eq_none h, Option.getD_none]

/-! ## Equality -/

/-- Dropping zeros at the end changes no word, counting missing ones as zero. -/
theorem getD_rdropWhile (words : List UInt32) (position : Nat) :
    (words.rdropWhile (· == 0)).getD position 0 = words.getD position 0 := by
  induction words using List.reverseRecOn with
  | nil => rfl
  | append_singleton words word ih =>
    rw [List.rdropWhile_concat]
    split
    next hzero =>
      rw [ih, List.getD_eq_getElem?_getD, List.getD_eq_getElem?_getD, List.getElem?_append]
      split
      · rfl
      · rename_i hbehind
        rw [List.getElem?_eq_none (Nat.le_of_not_lt hbehind), List.getElem?_singleton]
        split
        · exact (beq_iff_eq.mp hzero).symm
        · rfl
    · rfl

/-- Lists with the same words that do not end in zero are of one length. -/
theorem length_le_of_getD {words others : List UInt32}
    (hlast : ∀ hne : others ≠ [], ¬ (others.getLast hne == 0) = true)
    (h : ∀ position, words.getD position 0 = others.getD position 0) :
    others.length ≤ words.length := by
  by_contra hlonger
  have hne : others ≠ [] := by
    rintro rfl
    exact hlonger (Nat.zero_le _)
  -- The last word of the longer list is missing in the other one.
  have hlastWord := h (others.length - 1)
  rw [List.getD_eq_default _ _ (by omega), List.getD_eq_getElem _ _ (by omega),
    ← List.getLast_eq_getElem hne] at hlastWord
  exact hlast hne (beq_iff_eq.mpr hlastWord.symm)

/-- The significant words are all but the zero words at the end. -/
theorem toList_significantWords (set : BitSet) :
    set.significantWords.toList = set.words.toList.rdropWhile (· == 0) := by
  have hlists : set.significantWords = (set.words.toList.rdropWhile (· == 0)).toArray := by
    rw [significantWords, List.rdropWhile, ← List.popWhile_toArray, Array.toArray_toList]
  rw [hlists]

/-- The words up to the last one that is not zero hold the same as all words. -/
theorem getD_significantWords (set : BitSet) (position : Nat) :
    set.significantWords.toList.getD position 0 = set.wordAt position := by
  rw [toList_significantWords, getD_rdropWhile, List.getD_eq_getElem?_getD, Array.getElem?_toList,
    wordAt, Array.getD_eq_getD_getElem?]

/-- They are the same exactly if the indices are. -/
theorem significantWords_eq_iff :
    set.significantWords = other.significantWords ↔ set.indices = other.indices := by
  rw [← wordAt_eq_iff]
  constructor
  · intro hwords position
    rw [← getD_significantWords, ← getD_significantWords, hwords]
  · intro hwords
    have hsame (position : Nat) : set.significantWords.toList.getD position 0
        = other.significantWords.toList.getD position 0 := by
      rw [getD_significantWords, getD_significantWords, hwords]
    have hlast (set : BitSet) (hne : set.significantWords.toList ≠ []) :
        ¬ (set.significantWords.toList.getLast hne == 0) = true := by
      simp only [toList_significantWords] at hne ⊢
      exact List.rdropWhile_last_not _ _ hne
    have hlength := Nat.le_antisymm
      (length_le_of_getD (hlast set) fun position => (hsame position).symm)
      (length_le_of_getD (hlast other) hsame)
    refine Array.toList_inj.mp (List.ext_getElem hlength fun position hset hother => ?_)
    have hposition := hsame position
    rwa [List.getD_eq_getElem _ _ hset, List.getD_eq_getElem _ _ hother] at hposition

/-- Two sets compare as equal when they have the same indices, whatever room each has. -/
theorem beq_iff : (set == other) = true ↔ set.indices = other.indices := by
  rw [← significantWords_eq_iff]
  show (set.significantWords == other.significantWords) = true ↔ _
  exact beq_iff_eq

/-! ## What operations answer -/

/-- A bit is added to a word without changing it exactly if the word has the bit. -/
theorem or_mask_eq_iff {word : UInt32} :
    word ||| mask index = word ↔ word.toNat.testBit (31 - index % 32) = true := by
  have hbits (bit : Nat) : (word ||| mask index).toNat.testBit bit
      = (word.toNat.testBit bit || decide (31 - index % 32 = bit)) := by
    rw [UInt32.toNat_or, Nat.testBit_or, toNat_mask, Nat.testBit_two_pow]
  constructor
  · intro heq
    have hbit := hbits (31 - index % 32)
    rwa [heq, decide_eq_true rfl, Bool.or_true] at hbit
  · intro hset
    refine eq_of_testBit fun bit _ => ?_
    rw [hbits]
    by_cases hbit : 31 - index % 32 = bit
    · rw [← hbit, hset, Bool.true_or]
    · rw [decide_eq_false hbit, Bool.or_false]

/-- Adding an index changes its word exactly if the index is not in the set. -/
theorem insertNew_eq (set : BitSet) (index : Nat) :
    set.insertNew index = (!set.contains index, set.insert index) := by
  have hroom : index / 32 < (set.reserve (index + 1)).words.size := by
    rw [size_words_reserve, wordsFor]
    omega
  have hinserted : index / 32 < (set.insert index).words.size := by
    rwa [insert, Array.size_modify]
  rw [insertNew, Array.getElem?_eq_getElem hroom, Array.getElem?_eq_getElem hinserted,
    ← wordAt_of_lt hroom, ← wordAt_of_lt hinserted, wordAt_reserve, wordAt_insert, if_pos rfl,
    contains_eq]
  congr 1
  rw [Bool.eq_iff_iff, bne_iff_ne, Ne, Option.some.injEq, eq_comm, or_mask_eq_iff,
    Bool.not_eq_true', Bool.not_eq_true]

/-- An index is new if it is not in the set. -/
theorem insertNew_iff : (set.insertNew index).1 = true ↔ index ∉ set.indices := by
  rw [mem_indices_iff, insertNew_eq, Bool.not_eq_true', Bool.not_eq_true]

/-- Joining changes words exactly if there is an index that is new, and not for room alone. -/
theorem unionNew_iff : (set.unionNew other).1 = true ↔ ¬ other.indices ⊆ set.indices := by
  have hwords : (set.union other).words = (set.reserve other.capacity).words
      ↔ (set.union other).indices = set.indices := by
    rw [← wordAt_eq_iff]
    constructor
    · intro heq position
      rw [wordAt, heq, ← wordAt, wordAt_reserve]
    · intro hsame
      refine Array.ext (by rw [union, Array.size_mapIdx]) fun position hunion hreserve => ?_
      rw [← wordAt_of_lt hunion, ← wordAt_of_lt hreserve, wordAt_reserve, hsame]
  show ((set.union other).words != (set.reserve other.capacity).words) = true ↔ _
  rw [bne_iff_ne, Ne, hwords, indices_union, Finset.union_eq_left]

/-- What is in one word or another differs from what is in just one of them exactly if they have a
bit in common. -/
theorem or_bne_xor (word second : UInt32) :
    (word ||| second != word ^^^ second) = (word &&& second != 0) := by
  rw [Bool.eq_iff_iff, bne_iff_ne, bne_iff_ne]
  refine not_congr ⟨fun hsame => eq_of_testBit fun bit _ => ?_, fun hnone =>
    eq_of_testBit fun bit _ => ?_⟩
  · have hbit := congrArg (fun word : UInt32 => word.toNat.testBit bit) hsame
    simp only [UInt32.toNat_or, UInt32.toNat_xor, Nat.testBit_or, Nat.testBit_xor] at hbit
    rw [UInt32.toNat_and, Nat.testBit_and, UInt32.toNat_zero, Nat.zero_testBit]
    revert hbit
    cases word.toNat.testBit bit <;> cases second.toNat.testBit bit <;> decide
  · have hbit := congrArg (fun word : UInt32 => word.toNat.testBit bit) hnone
    simp only [UInt32.toNat_and, Nat.testBit_and, UInt32.toNat_zero, Nat.zero_testBit] at hbit
    rw [UInt32.toNat_or, UInt32.toNat_xor, Nat.testBit_or, Nat.testBit_xor]
    revert hbit
    cases word.toNat.testBit bit <;> cases second.toNat.testBit bit <;> decide

/-- Sets intersect if two of their words have a bit in common. -/
theorem intersects_eq (set other : BitSet) : set.intersects other
    = (set.words.zip other.words).any fun (word, word2) => word &&& word2 != 0 := by
  simp only [intersects, or_bne_xor]

/-- A set that is missing intersects none. -/
theorem intersectsOption_eq (set : BitSet) (other : Option BitSet) :
    set.intersectsOption other = other.any set.intersects := by
  cases other <;> rfl

/-- Words of two sets have a common bit exactly if the sets have a common index. -/
theorem intersects_iff :
    set.intersects other = true ↔ ∃ index, index ∈ set.indices ∧ index ∈ other.indices := by
  have hpairs : set.intersects other = true
      ↔ ∃ position, set.wordAt position &&& other.wordAt position ≠ 0 := by
    rw [intersects_eq, Array.any_eq_true]
    constructor
    · rintro ⟨position, hlt, hbits⟩
      rw [Array.size_zip] at hlt
      refine ⟨position, ?_⟩
      rw [wordAt_of_lt (by omega), wordAt_of_lt (by omega)]
      simpa using hbits
    · rintro ⟨position, hbits⟩
      have hset : position < set.words.size := by
        by_contra hmissing
        rw [wordAt_of_size_le (Nat.le_of_not_lt hmissing), UInt32.zero_and] at hbits
        exact hbits rfl
      have hother : position < other.words.size := by
        by_contra hmissing
        rw [other.wordAt_of_size_le (Nat.le_of_not_lt hmissing), UInt32.and_zero] at hbits
        exact hbits rfl
      refine ⟨position, by rw [Array.size_zip]; omega, ?_⟩
      rw [wordAt_of_lt hset, wordAt_of_lt hother] at hbits
      simpa using hbits
  rw [hpairs]
  constructor
  · rintro ⟨position, hbits⟩
    obtain ⟨bit, hbit, hcommon⟩ := ne_zero_iff.mp hbits
    rw [UInt32.toNat_and, Nat.testBit_and, Bool.and_eq_true, ← contains_bit set hbit,
      ← contains_bit other hbit] at hcommon
    exact ⟨_, mem_indices_iff.mpr hcommon.1, mem_indices_iff.mpr hcommon.2⟩
  · rintro ⟨index, hset, hother⟩
    refine ⟨index / 32, ne_zero_iff.mpr ⟨31 - index % 32, by omega, ?_⟩⟩
    rw [UInt32.toNat_and, Nat.testBit_and, ← contains_eq, ← contains_eq, mem_indices_iff.mp hset,
      mem_indices_iff.mp hother]
    rfl

/-- A set with every bit clear has no index. -/
theorem isAllClear_iff : set.isAllClear = true ↔ set.indices = ∅ := by
  rw [isAllClear, Array.all_eq_true, indices_eq_empty_iff]
  constructor
  · intro hzero position
    rcases Nat.lt_or_ge position set.words.size with hlt | hge
    · rw [wordAt_of_lt hlt]
      exact beq_iff_eq.mp (hzero position hlt)
    · exact wordAt_of_size_le hge
  · intro hzero position hlt
    rw [← wordAt_of_lt hlt, hzero]
    rfl

/-- A word is full if it has all bits. -/
theorem eq_full_iff {word : UInt32} :
    word = 0xFFFFFFFF ↔ ∀ bit < 32, word.toNat.testBit bit = true := by
  have hfull : ∀ bit < 32, (0xFFFFFFFF : UInt32).toNat.testBit bit = true := by
    intro bit hbit
    show (2 ^ 32 - 1).testBit bit = true
    rw [Nat.testBit_two_pow_sub_one]
    exact decide_eq_true hbit
  constructor
  · rintro rfl
    exact hfull
  · intro hword
    exact eq_of_testBit fun bit hbit => by rw [hword bit hbit, hfull bit hbit]

/-- A set with every bit set has every index below its capacity. -/
theorem isAllSet_iff : set.isAllSet = true ↔ set.indices = Finset.range set.capacity := by
  rw [isAllSet, Array.all_eq_true]
  constructor
  · intro hfull
    ext index
    rw [mem_indices_iff, Finset.mem_range]
    refine ⟨lt_capacity_of_contains, fun hlt => ?_⟩
    have hword : index / 32 < set.words.size := by
      rw [capacity] at hlt
      omega
    rw [contains_eq, wordAt_of_lt hword]
    exact eq_full_iff.mp (beq_iff_eq.mp (hfull (index / 32) hword)) _ (by omega)
  · intro hall position hlt
    rw [beq_iff_eq, ← wordAt_of_lt hlt]
    refine eq_full_iff.mpr fun bit hbit => ?_
    rw [← contains_bit set hbit, ← mem_indices_iff, hall, Finset.mem_range, capacity]
    omega

/-! ## Making sets -/

/-- A way to make a set. -/
inductive Construction where
  | withCapacity (room : Nat)
  | insert (made : Construction) (index : Nat)
  | union (made other : Construction)

namespace Construction

/-- The set that is made. -/
def build : Construction → BitSet
  | withCapacity room => BitSet.withCapacity room
  | insert made index => (made.build.insertNew index).2
  | union made other => (made.build.unionNew other.build).2

/-- The indices that were added on the way. -/
def indices : Construction → Finset Nat
  | withCapacity _ => ∅
  | insert made index => Insert.insert index made.indices
  | union made other => made.indices ∪ other.indices

/-- The words that were needed on the way. -/
def words : Construction → Nat
  | withCapacity room => (room + 31) / 32
  | insert made index => max made.words (index / 32 + 1)
  | union made other => max made.words other.words

/-- A set contains the indices that were added, and no others. -/
theorem indices_build (made : Construction) : made.build.indices = made.indices := by
  induction made with
  | withCapacity room => exact indices_withCapacity room
  | insert made index ih => exact (indices_insert _ index).trans (by rw [ih, indices])
  | union made other ih ihOther => exact (indices_union _ _).trans (by rw [ih, ihOther, indices])

/-- A set has room for the words that were needed, and no more. -/
theorem capacity_build (made : Construction) : made.build.capacity = made.words * 32 := by
  induction made with
  | withCapacity room => exact capacity_withCapacity room
  | insert made index ih =>
    show (made.build.insert index).words.size * 32 = _
    rw [capacity] at ih
    rw [size_words_insert, words, wordsFor]
    omega
  | union made other ih ihOther =>
    show (made.build.union other.build).capacity = _
    rw [capacity_union, ih, ihOther, words]
    omega

end Construction

/-- Room grows only for an index that there was none for, and only as far as that needs. -/
theorem capacity_insertNew (set : BitSet) (index : Nat) : (set.insertNew index).2.capacity
    = if index < set.capacity then set.capacity else (index / 32 + 1) * 32 := by
  show (set.insert index).capacity = _
  split
  · rename_i hroom
    exact capacity_insert hroom
  · rename_i hnone
    rw [capacity] at hnone
    rw [capacity, size_words_insert, wordsFor]
    omega

/-- **Packed sets are finite sets of indices.** The indices of a set are those it reports. Adding an
index and joining sets add to them just what they should, and say whether that was new; to intersect
is to have a common index, and to be equal is to have the same indices. So it is to have the same
words up to the last one that is not zero, which are those that are hashed. Listing is ascending.
Room is in whole words, is never given back, and grows only for an index or a set that needs it; and
a set that was made in any way has the indices that were added on the way, and room for the words
that were needed. -/
theorem finite_sets_exact (set other : BitSet) :
    (∀ index, index ∈ set.indices ↔ set.contains index = true)
      ∧ (∀ index, (set.insertNew index).2.indices = Insert.insert index set.indices
        ∧ ((set.insertNew index).1 = true ↔ index ∉ set.indices)
        ∧ (set.insertNew index).2.capacity
          = if index < set.capacity then set.capacity else (index / 32 + 1) * 32)
      ∧ ((set.unionNew other).2.indices = set.indices ∪ other.indices
        ∧ ((set.unionNew other).1 = true ↔ ¬ other.indices ⊆ set.indices)
        ∧ (set.unionNew other).2.capacity = max set.capacity other.capacity)
      ∧ (set.intersectsOption none = false
        ∧ (set.intersectsOption (some other) = true ↔ (set.indices ∩ other.indices).Nonempty))
      ∧ ((set == other) = true ↔ set.indices = other.indices)
      ∧ (set.significantWords = other.significantWords ↔ set.indices = other.indices)
      ∧ hash set = hash set.significantWords
      ∧ (set.toList.Pairwise (· < ·) ∧ ∀ index, index ∈ set.toList ↔ index ∈ set.indices)
      ∧ (set.isAllClear = true ↔ set.indices = ∅)
      ∧ (set.isAllSet = true ↔ set.indices = Finset.range set.capacity)
      ∧ ∀ made : Construction,
        made.build.indices = made.indices ∧ made.build.capacity = made.words * 32 := by
  refine ⟨fun index => mem_indices_iff, fun index => ?_, ?_, ?_, beq_iff, significantWords_eq_iff,
    rfl, ?_, isAllClear_iff, isAllSet_iff, fun made => ⟨made.indices_build, made.capacity_build⟩⟩
  · exact ⟨indices_insert set index, insertNew_iff, capacity_insertNew set index⟩
  · exact ⟨indices_union set other, unionNew_iff, capacity_union set other⟩
  · refine ⟨rfl, intersects_iff.trans ?_⟩
    simp only [Finset.Nonempty, Finset.mem_inter]
  · exact ⟨pairwise_toList set, fun index => mem_toList_iff.trans mem_indices_iff.symm⟩

end ClassFormat.BitSet
