import ClassFormat.Proofs.Code.Flow
import Mathlib.Data.List.Sort
/-!
# Stray branch targets, in order

Branch targets at which no instruction starts are looked for in two ways. Those inside the code are
marked in a set, which lists them in ascending order, and those at its end or behind it are sorted
and rid of repetitions. Since the former are all below the latter, what stands one behind the other
ascends strictly (`sortedLT_strayAmong`). A list that ascends strictly is known by its
elements, so `Flow.strayBranchTargets_exact` fixes the answer in every case.
-/

namespace ClassFormat

namespace Flow

variable {pool : Pool} {code : Bytes} {cause : Error}

/-! ## Sorting without repetitions -/

/-- Going on to erase repetitions behind elements that descend, with the last one at hand. -/
theorem pairwise_lt_eraseReps_loop {last : Nat} {elements found : List Nat}
    (hfound : (last :: found).Pairwise (· > ·)) (hbehind : (last :: elements).Pairwise (· ≤ ·)) :
    (List.eraseRepsBy.loop (· == ·) last elements found).Pairwise (· < ·) := by
  induction elements generalizing last found with
  | nil =>
    rw [List.eraseRepsBy.loop, List.pairwise_reverse]
    exact hfound
  | cons next elements ih =>
    have hlater := (List.pairwise_cons.mp hbehind).2
    rw [List.eraseRepsBy.loop]
    split
    · rename_i heq
      obtain rfl : last = next := beq_iff_eq.mp heq
      exact ih hfound hlater
    · rename_i hne
      have hle : last ≤ next := (List.pairwise_cons.mp hbehind).1 next List.mem_cons_self
      have hlt : last < next := Nat.lt_of_le_of_ne hle (by simpa using hne)
      refine ih (List.pairwise_cons.mpr ⟨fun earlier hmem => ?_, hfound⟩) hlater
      -- What was found before is below the last one, which is below the next one.
      rcases List.mem_cons.mp hmem with rfl | hmem
      · exact hlt
      · exact Nat.lt_trans ((List.pairwise_cons.mp hfound).1 earlier hmem) hlt

/-- Without its repetitions, a list that ascends does so strictly. -/
theorem sortedLT_eraseReps {elements : List Nat} (h : elements.SortedLE) :
    elements.eraseReps.SortedLT := by
  cases elements with
  | nil => exact List.Pairwise.nil.sortedLT
  | cons first elements =>
    have hfirst : [first].Pairwise (· > ·) := List.pairwise_singleton ..
    exact (pairwise_lt_eraseReps_loop hfirst h.pairwise).sortedLT

/-! ## What is answered -/

/-- What is marked inside the code is below its end. -/
theorem lt_length_of_mem_mark {length target : Nat} {targets : List Nat}
    (h : target ∈ (mark length (BitSet.withCapacity length) targets).toList) :
    target < length := by
  rw [BitSet.mem_toList_iff, contains_mark, BitSet.contains_withCapacity] at h
  exact (h.resolve_left Bool.false_ne_true).1

/-- The targets inside the code come first, and the others behind them. -/
theorem sortedLT_strayAmong (length : Nat) (starts : BitSet) (targets : List Nat) :
    (strayAmong length starts targets).SortedLT := by
  refine (List.pairwise_append.mpr ⟨?_, ?_, ?_⟩).sortedLT
  · exact (BitSet.pairwise_toList _).filter _
  · exact (sortedLT_eraseReps List.sortedLE_mergeSort).pairwise
  · intro inside hinside beyond hbeyond
    have hlt := lt_length_of_mem_mark (List.mem_filter.mp hinside).1
    rw [mem_eraseReps, List.mem_mergeSort, List.mem_filter, decide_eq_true_iff] at hbeyond
    exact Nat.lt_of_lt_of_le hlt hbeyond.2

/-- Code that cannot be read to its end is refused for that. -/
theorem strayBranchTargets_of_failure (h : (disassemble pool code).failure = some cause) :
    strayBranchTargets pool code = .error cause := by
  rw [strayBranchTargets, instructionStarts, Disassembly.complete, h]
  rfl

/-- Addresses that ascend are known by which they are. -/
theorem eq_of_mem_iff {targets others : List UInt32} (h : (targets.map UInt32.toNat).SortedLT)
    (hothers : (others.map UInt32.toNat).SortedLT)
    (hmem : ∀ target, target ∈ targets ↔ target ∈ others) : targets = others := by
  have hinjective : Function.Injective UInt32.toNat := fun _ _ => UInt32.toNat_inj.mp
  refine List.map_injective_iff.mpr hinjective (h.eq_of_mem_iff hothers fun number => ?_)
  simp only [List.mem_map, hmem]

/-- **Stray branch targets, exactly.** The analysis fails exactly for code that cannot be read to
its end, with the cause of that. Otherwise it answers the one list that ascends strictly and has an
address for element exactly if that is a branch target of some instruction and no instruction starts
there, be it inside the code or not. -/
theorem strayBranchTargets_exact (pool : Pool) (code : Bytes) (hcode : IsCodeArray code) :
    (∀ cause, strayBranchTargets pool code = .error cause
      ↔ (disassemble pool code).failure = some cause)
    ∧ ∀ stray, strayBranchTargets pool code = .ok stray
      ↔ (disassemble pool code).failure = none ∧ (stray.map UInt32.toNat).SortedLT
        ∧ ∀ target, target ∈ stray
          ↔ (∃ instruction ∈ (disassemble pool code).instructions,
              target ∈ instruction.branchTargets)
            ∧ ¬ ∃ instruction ∈ (disassemble pool code).instructions,
              instruction.address = target := by
  cases hfailure : (disassemble pool code).failure with
  | some cause =>
    have hfails := strayBranchTargets_of_failure hfailure
    simp [hfails]
  | none =>
    obtain ⟨starts, found, hfound, hmap, hmem⟩ := exists_strayBranchTargets hcode hfailure
    have hsorted : (found.map UInt32.toNat).SortedLT := by
      rw [hmap]
      exact sortedLT_strayAmong ..
    simp only [Disassembly.StartsAt, UInt32.toNat_inj] at hmem
    refine ⟨fun cause => by simp [hfound], fun stray => ?_⟩
    rw [hfound, Except.ok.injEq, and_iff_right rfl]
    constructor
    · rintro rfl
      exact ⟨hsorted, hmem⟩
    · rintro ⟨hstray, hstrayMem⟩
      exact eq_of_mem_iff hsorted hstray fun target => (hmem target).trans (hstrayMem target).symm

/-- A branch far behind the end of the code, one into itself, and one to where an instruction
starts. -/
theorem strayBranchTargets_of_jumps :
    let code : Bytes := [0xc8, 0x7f, 0xff, 0xff, 0xff, 0xa7, 0x00, 0x01, 0xa7, 0xff, 0xfd, 0xb1]
    IsCodeArray code ∧ strayBranchTargets (.empty ⟨0⟩) code = .ok [6, 0x7fffffff] := by
  intro code
  have hcode : IsCodeArray code := by decide
  have hfound : disassemble (.empty ⟨0⟩) code = ⟨[⟨0, ⟨0xc8⟩, false, .branch 0x7fffffff⟩,
      ⟨5, ⟨0xa7⟩, false, .branch 1⟩, ⟨8, ⟨0xa7⟩, false, .branch (-3)⟩,
      ⟨11, ⟨0xb1⟩, false, .nothing⟩], none, ⟨12, [], false⟩⟩ := by
    decide
  refine ⟨hcode, ((strayBranchTargets_exact (.empty ⟨0⟩) code hcode).2 _).mpr ⟨?_, ?_, ?_⟩⟩
  · rw [hfound]
  · decide
  · intro target
    have htargets : (∃ instruction ∈ (disassemble (.empty ⟨0⟩) code).instructions,
        target ∈ instruction.branchTargets) ↔ target = 0x7fffffff ∨ target = 6 ∨ target = 5 := by
      rw [hfound]
      simp only [List.mem_cons, List.not_mem_nil, or_false, exists_eq_or_imp, exists_eq_left,
        show (⟨0, ⟨0xc8⟩, false, .branch 0x7fffffff⟩ : Instruction).branchTargets
          = [0x7fffffff] from rfl,
        show (⟨5, ⟨0xa7⟩, false, .branch 1⟩ : Instruction).branchTargets = [6] from rfl,
        show (⟨8, ⟨0xa7⟩, false, .branch (-3)⟩ : Instruction).branchTargets = [5] from rfl,
        show (⟨11, ⟨0xb1⟩, false, .nothing⟩ : Instruction).branchTargets = [] from rfl]
    rw [htargets, hfound]
    simp only [List.mem_cons, List.not_mem_nil, or_false, exists_eq_or_imp, exists_eq_left]
    constructor
    · rintro (rfl | rfl) <;> decide
    · rintro ⟨rfl | rfl | rfl, hnot⟩
      · exact .inr rfl
      · exact .inl rfl
      · exact absurd (by decide) hnot

end Flow

end ClassFormat
