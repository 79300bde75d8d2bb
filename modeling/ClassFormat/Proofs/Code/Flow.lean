import ClassFormat.Code.Flow
import ClassFormat.Proofs.BitSet
import ClassFormat.Proofs.Code.Location
import ClassFormat.Proofs.Instruction.Tiling
/-!
# The analyses of a code array agree

Each analysis goes over the instructions by itself and marks addresses inside the code. So what it
finds is known once it is said which addresses it looks at: `exists_instructionStarts`,
`exists_blockStarts` and `exists_strayBranchTargets` say that of code that can be read to its end.

Instructions tile such code: an address behind an instruction is the start of the next one or the
end of the code, and the first one starts at 0. So what makes a block start at an address where no
instruction starts is a branch into an instruction or an exception handler.
-/

namespace ClassFormat

variable {pool : Pool} {code : Bytes}

/-! ## Where instructions start -/

namespace Walk

variable {walk stop : Walk} {instruction : Instruction} {instructions : List Instruction}

/-- Where code is left to walk over without a failure, an instruction starts. -/
theorem Runs.exists_first (h : Runs pool walk instructions none stop) (hwalk : walk.Addressable)
    (hne : walk.rest ≠ []) : ∃ first ∈ instructions, first.address.toNat = walk.position := by
  generalize hfailure : (none : Option Error) = failure at h
  cases h with
  | finish hnil => exact absurd hnil hne
  | refuse => cases hfailure
  | step hnext _ =>
    exact ⟨_, List.mem_cons_self, (steps_of_next? hwalk hnext).toNat_address hwalk⟩

/-- Behind an instruction the next one starts, unless the code ends there. -/
theorem Runs.exists_next (h : Runs pool walk instructions none stop) (hwalk : walk.Addressable)
    (hmem : instruction ∈ instructions)
    (hlt : instruction.nextAddress.toNat < walk.position + walk.rest.length) :
    ∃ next ∈ instructions, next.address.toNat = instruction.nextAddress.toNat := by
  generalize hfailure : (none : Option Error) = failure at h
  induction h, hwalk using Runs.stepInduction with
  | finish | refuse => exact absurd hmem List.not_mem_nil
  | @step walk later _ _ _ _ _ hruns hwalk hsteps ih =>
    subst hfailure
    have hend := hsteps.end_eq
    rcases List.mem_cons.mp hmem with rfl | hmem
    · have hnextAddress := (hsteps.toNat_nextAddress hwalk).1
      have hne : later.rest ≠ [] := by
        intro hnil
        rw [hnil, List.length_nil] at hend
        omega
      obtain ⟨next, hnextMem, haddress⟩ :=
        hruns.exists_first (hsteps.addressable hwalk) hne
      exact ⟨next, List.mem_cons_of_mem _ hnextMem, haddress.trans hnextAddress.symm⟩
    · obtain ⟨next, hnextMem, haddress⟩ := ih hmem (by omega) rfl
      exact ⟨next, List.mem_cons_of_mem _ hnextMem, haddress⟩

end Walk

/-- An instruction that was found starts at an address. -/
def Disassembly.StartsAt (found : Disassembly) (address : Nat) : Prop :=
  ∃ instruction ∈ found.instructions, instruction.address.toNat = address

namespace Disassembly

variable {instruction : Instruction}

/-- Instructions lie inside the code, and each one ends behind its start. -/
theorem nextAddress_le (hcode : IsCodeArray code)
    (hmem : instruction ∈ (disassemble pool code).instructions) :
    instruction.address.toNat < instruction.nextAddress.toNat
      ∧ instruction.nextAddress.toNat ≤ code.length := by
  have hruns := runs_disassemble pool hcode
  have hwalk := Walk.addressable_start hcode
  obtain ⟨hpos, hsum⟩ := hruns.length_of_mem hwalk hmem
  have hle := hruns.nextAddress_le hwalk hmem
  rw [show (Walk.start code).position + (Walk.start code).rest.length = code.length from
    Nat.zero_add _] at hle
  omega

theorem StartsAt.lt_length {address : Nat} (h : (disassemble pool code).StartsAt address)
    (hcode : IsCodeArray code) : address < code.length := by
  obtain ⟨instruction, hmem, rfl⟩ := h
  have hle := nextAddress_le hcode hmem
  omega

/-- Code that can be read to its end, unless there is none, starts with an instruction. -/
theorem startsAt_zero (hcode : IsCodeArray code) (h : (disassemble pool code).failure = none)
    (hpos : 0 < code.length) : (disassemble pool code).StartsAt 0 := by
  have hruns := runs_disassemble pool hcode
  rw [h] at hruns
  exact hruns.exists_first (Walk.addressable_start hcode) (List.ne_nil_of_length_pos hpos)

/-- In such code an instruction starts behind each one but the last. -/
theorem startsAt_nextAddress (hcode : IsCodeArray code)
    (h : (disassemble pool code).failure = none)
    (hmem : instruction ∈ (disassemble pool code).instructions)
    (hlt : instruction.nextAddress.toNat < code.length) :
    (disassemble pool code).StartsAt instruction.nextAddress.toNat := by
  have hruns := runs_disassemble pool hcode
  rw [h] at hruns
  refine hruns.exists_next (Walk.addressable_start hcode) hmem ?_
  rwa [show (Walk.start code).position + (Walk.start code).rest.length = code.length from
    Nat.zero_add _]

theorem complete_eq_ok (h : (disassemble pool code).failure = none) :
    (disassemble pool code).complete = .ok (disassemble pool code).instructions := by
  rw [complete, h]

end Disassembly

namespace Flow

variable {set : BitSet} {length address : Nat} {addresses : List Nat}
  {handlers : List ExceptionHandler}

/-! ## Marking addresses -/

/-- So many indices, rounded up to whole words. -/
def roundedUp (length : Nat) : Nat := (length + 31) / 32 * 32

theorem contains_foldl_insert (addresses : List Nat) :
    (addresses.foldl BitSet.insert set).contains address = true
      ↔ set.contains address = true ∨ address ∈ addresses := by
  induction addresses generalizing set with
  | nil => simp
  | cons first addresses ih =>
    rw [List.foldl_cons, ih, BitSet.contains_insert, Bool.or_eq_true, beq_iff_eq, List.mem_cons,
      or_assoc]

theorem capacity_foldl_insert (h : ∀ address ∈ addresses, address < set.capacity) :
    (addresses.foldl BitSet.insert set).capacity = set.capacity := by
  induction addresses generalizing set with
  | nil => rfl
  | cons first addresses ih =>
    rw [List.forall_mem_cons] at h
    have hfirst := BitSet.capacity_insert h.1
    rw [List.foldl_cons, ih (by rw [hfirst]; exact h.2), hfirst]

/-- Marking addresses is adding those that lie inside the code. -/
theorem mark_eq (length : Nat) (set : BitSet) (addresses : List Nat) : mark length set addresses
    = (addresses.filter fun address => address < length).foldl BitSet.insert set := by
  rw [mark, List.foldl_filter]
  congr 1
  funext set address
  by_cases hlt : address < length <;> simp [hlt]

theorem contains_mark : (mark length set addresses).contains address = true
    ↔ set.contains address = true ∨ address < length ∧ address ∈ addresses := by
  rw [mark_eq, contains_foldl_insert, List.mem_filter, decide_eq_true_iff, and_comm]

/-- A list with room for the code never grows. -/
theorem capacity_mark (h : length ≤ set.capacity) :
    (mark length set addresses).capacity = set.capacity := by
  rw [mark_eq]
  refine capacity_foldl_insert fun address haddress => ?_
  have hlt := of_decide_eq_true (List.mem_filter.mp haddress).2
  omega

theorem capacity_mark_withCapacity (length : Nat) (addresses : List Nat) :
    (mark length (BitSet.withCapacity length) addresses).capacity = roundedUp length := by
  have hcapacity := BitSet.capacity_withCapacity length
  rw [capacity_mark (by omega), hcapacity, roundedUp]

/-- Marking what comes of each element is marking all of it. -/
theorem foldl_mark {α : Type} (around : α → List Nat) (elements : List α) :
    elements.foldl (fun set element => mark length set (around element)) set
      = mark length set (elements.flatMap around) := by
  rw [mark, List.foldl_flatMap]
  rfl

/-! ## What each analysis finds -/

/-- The starts of instructions are found, and nothing else. -/
theorem exists_instructionStarts (hcode : IsCodeArray code)
    (h : (disassemble pool code).failure = none) :
    ∃ starts, instructionStarts pool code = .ok starts
      ∧ (∀ address, starts.contains address = true ↔ (disassemble pool code).StartsAt address)
      ∧ starts.capacity = roundedUp code.length := by
  have hstarts : instructionStarts pool code = .ok
      (((disassemble pool code).instructions.map (·.address.toNat)).foldl BitSet.insert
        (BitSet.withCapacity code.length)) := by
    rw [instructionStarts, Disassembly.complete_eq_ok h, List.foldl_map]
    rfl
  refine ⟨_, hstarts, fun address => ?_, ?_⟩
  · rw [contains_foldl_insert, BitSet.contains_withCapacity, List.mem_map]
    simp [Disassembly.StartsAt]
  · rw [capacity_foldl_insert, BitSet.capacity_withCapacity, roundedUp]
    intro address haddress
    obtain ⟨instruction, hmem, rfl⟩ := List.mem_map.mp haddress
    have hlt := Disassembly.StartsAt.lt_length ⟨instruction, hmem, rfl⟩ hcode
    rw [BitSet.capacity_withCapacity]
    omega

/-- Blocks start at the beginning of the code, at what instructions bring about and at the offsets
of handlers, as far as these lie inside the code. -/
theorem exists_blockStarts (h : (disassemble pool code).failure = none)
    (handlers : List ExceptionHandler) : ∃ blocks, blockStarts pool code handlers = .ok blocks
      ∧ (∀ address, blocks.contains address = true ↔ address < code.length ∧ (address = 0
        ∨ (∃ instruction ∈ (disassemble pool code).instructions,
          address ∈ blocksAround instruction)
        ∨ ∃ handler ∈ handlers, address ∈ handlerOffsets handler))
      ∧ blocks.capacity = roundedUp code.length := by
  have hblocks : blockStarts pool code handlers = .ok
      ((mark code.length (mark code.length (BitSet.withCapacity code.length) [0])
          ((disassemble pool code).instructions.flatMap blocksAround)).union
        (mark code.length (BitSet.withCapacity code.length)
          (handlers.flatMap handlerOffsets))) := by
    rw [blockStarts, Disassembly.complete_eq_ok h]
    show Except.ok (BitSet.union _ _) = _
    rw [foldl_mark, foldl_mark]
  refine ⟨_, hblocks, fun address => ?_, ?_⟩
  · simp only [BitSet.contains_union, Bool.or_eq_true, contains_mark,
      BitSet.contains_withCapacity, Bool.false_eq_true, false_or, List.mem_flatMap,
      List.mem_singleton, ← and_or_left, or_assoc]
  · have hfirst := capacity_mark_withCapacity code.length [0]
    have hroom :
        code.length ≤ (mark code.length (BitSet.withCapacity code.length) [0]).capacity := by
      rw [hfirst, roundedUp]
      omega
    rw [BitSet.capacity_union, capacity_mark hroom, hfirst, capacity_mark_withCapacity,
      Nat.max_self]

/-- Leaving out repetitions leaves the elements. -/
theorem mem_eraseReps_loop (last : Nat) (elements found : List Nat) :
    address ∈ List.eraseRepsBy.loop (· == ·) last elements found
      ↔ address = last ∨ address ∈ elements ∨ address ∈ found := by
  induction elements generalizing last found with
  | nil => simp [List.eraseRepsBy.loop, or_comm]
  | cons next elements ih =>
    rw [List.eraseRepsBy.loop]
    split
    · rename_i heq
      obtain rfl : last = next := beq_iff_eq.mp heq
      rw [ih, List.mem_cons]
      tauto
    · rw [ih, List.mem_cons, List.mem_cons]
      tauto

theorem mem_eraseReps (elements : List Nat) :
    address ∈ elements.eraseReps ↔ address ∈ elements := by
  cases elements with
  | nil => rfl
  | cons first elements =>
    rw [List.eraseReps, List.eraseRepsBy, mem_eraseReps_loop]
    simp

/-- Inside the code and behind it, a target is stray if no instruction starts there. -/
theorem mem_strayAmong_iff {starts : BitSet} {target : Nat} {targets : List Nat}
    (hstarts : starts.contains target = true → target < length) :
    target ∈ strayAmong length starts targets
      ↔ target ∈ targets ∧ starts.contains target = false := by
  simp only [strayAmong, List.mem_append, List.mem_filter, BitSet.mem_toList_iff, contains_mark,
    BitSet.contains_withCapacity, Bool.not_eq_true', mem_eraseReps, List.mem_mergeSort,
    decide_eq_true_iff]
  rcases Nat.lt_or_ge target length with hlt | hge
  · simp [hlt, Nat.not_le.mpr hlt]
  · -- Behind the end of the code no instruction starts, so none has to be left out there.
    have hnone : starts.contains target = false :=
      Bool.eq_false_iff.mpr fun hstart => absurd (hstarts hstart) (Nat.not_lt.mpr hge)
    simp [hge, Nat.not_lt.mpr hge, hnone]

/-- What is stray among addresses is an address. -/
theorem map_toNat_strayAmong {starts : BitSet}
    (hstarts : ∀ target, starts.contains target = true → target < length) (targets : List UInt32) :
    ((strayAmong length starts (targets.map UInt32.toNat)).map Nat.toUInt32).map UInt32.toNat
      = strayAmong length starts (targets.map UInt32.toNat) := by
  rw [List.map_map]
  refine (List.map_congr_left fun target hmem => ?_).trans (List.map_id _)
  obtain ⟨address, -, rfl⟩ := List.mem_map.mp ((mem_strayAmong_iff (hstarts target)).mp hmem).1
  exact UInt32.toNat_ofNat_of_lt' address.toNat_lt

/-- A branch target is stray if no instruction starts there. -/
theorem exists_strayBranchTargets (hcode : IsCodeArray code)
    (h : (disassemble pool code).failure = none) : ∃ starts stray,
      strayBranchTargets pool code = .ok stray
      ∧ stray.map UInt32.toNat = strayAmong code.length starts
        (((disassemble pool code).instructions.flatMap Instruction.branchTargets).map UInt32.toNat)
      ∧ ∀ target, target ∈ stray
        ↔ (∃ instruction ∈ (disassemble pool code).instructions,
            target ∈ instruction.branchTargets)
          ∧ ¬ (disassemble pool code).StartsAt target.toNat := by
  obtain ⟨starts, hstarts, hcontains, -⟩ := exists_instructionStarts hcode h
  have hinside (target : Nat) (hstart : starts.contains target = true) : target < code.length :=
    ((hcontains target).mp hstart).lt_length hcode
  have hmap := map_toNat_strayAmong hinside
    ((disassemble pool code).instructions.flatMap Instruction.branchTargets)
  refine ⟨starts, _, ?_, hmap, fun target => ?_⟩
  · rw [strayBranchTargets, hstarts, Disassembly.complete_eq_ok h]
    rfl
  · have hinjective : Function.Injective UInt32.toNat := fun _ _ => UInt32.toNat_inj.mp
    rw [← List.mem_map_of_injective hinjective, hmap, mem_strayAmong_iff (hinside _),
      List.mem_map_of_injective hinjective, List.mem_flatMap, ← hcontains, Bool.not_eq_true]

/-! ## How they fit together -/

/-- The offsets of a handler are those of its locations that are decided. -/
theorem mem_handlerOffsets_iff {handler : ExceptionHandler} :
    address ∈ handlerOffsets handler ↔ handler.start = .fixed address
      ∨ handler.stop = .fixed address ∨ handler.target = .fixed address := by
  simp only [handlerOffsets, List.mem_filterMap, Location.offset?_eq_some_iff, exists_eq_right,
    List.mem_cons, List.not_mem_nil, or_false, @eq_comm _ (Location.fixed address)]

/-- An instruction makes blocks start at its branch targets, and perhaps behind itself. -/
theorem mem_blocksAround_iff {instruction : Instruction} :
    address ∈ blocksAround instruction
      ↔ address ∈ instruction.branchTargets.map UInt32.toNat
        ∨ address = instruction.nextAddress.toNat
          ∧ (instruction.branchTargets ≠ [] ∨ instruction.opcode.endsBlock = true) := by
  rw [blocksAround]
  simp only [ne_eq, List.map_eq_nil_iff]
  split
  · rename_i hends
    rw [List.mem_cons, and_iff_left hends, or_comm]
  · rename_i hends
    rw [or_iff_left fun hnext => hends hnext.2]

/-- A handler that fits the instructions has offsets only, and inside the code they are starts of
instructions. -/
theorem contains_of_isAligned {handler : ExceptionHandler}
    (h : isAligned length set handler = true) (hlt : address < length)
    (haddress : address ∈ handlerOffsets handler) : set.contains address = true := by
  rw [isAligned] at h
  split at h
  · rename_i start stop target hstart hstop htarget
    simp only [Bool.and_eq_true, Bool.or_eq_true, beq_iff_eq] at h
    obtain ⟨⟨hstartIn, hstopIn⟩, htargetIn⟩ := h
    rw [mem_handlerOffsets_iff, hstart, hstop, htarget] at haddress
    rcases haddress with heq | heq | heq
    · exact Location.fixed.inj heq ▸ hstartIn
    · have hstopLt : stop < length := Location.fixed.inj heq ▸ hlt
      rcases hstopIn with hstopIn | hend
      · exact Location.fixed.inj heq ▸ hstopIn
      · exact absurd hend (Nat.ne_of_lt hstopLt)
    · exact Location.fixed.inj heq ▸ htargetIn
  · cases h

/-- **The analyses agree.** Of code that can be read to its end, with any exception handlers: the
block starts at which no instruction starts are the stray branch targets inside the code and the
decided offsets of handlers inside the code at which no instruction starts. So if there is no stray
target and every handler fits the instructions, every block starts with an instruction. The starts
of instructions are the addresses of the instructions, and each list that an analysis keeps has the
room of the code in whole words, whatever is marked in it. -/
theorem analyses_agree (pool : Pool) (code : Bytes) (handlers : List ExceptionHandler)
    (hcode : IsCodeArray code) (h : (disassemble pool code).failure = none) :
    ∃ starts blocks stray,
      instructionStarts pool code = .ok starts
      ∧ blockStarts pool code handlers = .ok blocks
      ∧ strayBranchTargets pool code = .ok stray
      ∧ (∀ address, starts.contains address = true
        ↔ ∃ instruction ∈ (disassemble pool code).instructions,
          instruction.address.toNat = address)
      ∧ (∀ address, blocks.contains address = true ∧ starts.contains address = false
        ↔ address < code.length ∧ ((∃ target ∈ stray, target.toNat = address)
          ∨ starts.contains address = false
          ∧ ∃ handler ∈ handlers, handler.start = .fixed address ∨ handler.stop = .fixed address
            ∨ handler.target = .fixed address))
      ∧ (stray = [] → misalignedHandlers code handlers starts = [] →
        ∀ address, blocks.contains address = true → starts.contains address = true)
      ∧ starts.capacity = roundedUp code.length
      ∧ blocks.capacity = roundedUp code.length
      ∧ ∀ addresses, (mark code.length (BitSet.withCapacity code.length) addresses).capacity
        = roundedUp code.length := by
  obtain ⟨starts, hstarts, hstartsIff, hstartsRoom⟩ := exists_instructionStarts hcode h
  obtain ⟨blocks, hblocks, hblocksIff, hblocksRoom⟩ := exists_blockStarts h handlers
  obtain ⟨-, stray, hstray, -, hstrayIff⟩ := exists_strayBranchTargets hcode h
  have hmissing (address : Nat) : starts.contains address = false
      ↔ ¬ (disassemble pool code).StartsAt address := by
    rw [← hstartsIff, Bool.not_eq_true]
  -- What instructions bring about inside the code is the start of one or a stray target.
  have haround (address : Nat) (hlt : address < code.length)
      (hnot : ¬ (disassemble pool code).StartsAt address) :
      (∃ instruction ∈ (disassemble pool code).instructions,
        address ∈ blocksAround instruction) ↔ ∃ target ∈ stray, target.toNat = address := by
    constructor
    · rintro ⟨instruction, hmem, haddress⟩
      rcases mem_blocksAround_iff.mp haddress with hbranches | ⟨rfl, -⟩
      · obtain ⟨target, htarget, rfl⟩ := List.mem_map.mp hbranches
        exact ⟨target, (hstrayIff target).mpr ⟨⟨instruction, hmem, htarget⟩, hnot⟩, rfl⟩
      · exact absurd (Disassembly.startsAt_nextAddress hcode h hmem hlt) hnot
    · rintro ⟨target, hstrayMem, rfl⟩
      obtain ⟨⟨instruction, hmem, htarget⟩, -⟩ := (hstrayIff target).mp hstrayMem
      exact ⟨instruction, hmem, mem_blocksAround_iff.mpr (.inl (List.mem_map_of_mem htarget))⟩
  have hagree (address : Nat) : blocks.contains address = true ∧ starts.contains address = false
      ↔ address < code.length ∧ ((∃ target ∈ stray, target.toNat = address)
        ∨ starts.contains address = false
        ∧ ∃ handler ∈ handlers, address ∈ handlerOffsets handler) := by
    rw [hblocksIff, hmissing]
    constructor
    · rintro ⟨⟨hlt, hreason⟩, hnot⟩
      refine ⟨hlt, ?_⟩
      rcases hreason with rfl | haddress | haddress
      · exact absurd (Disassembly.startsAt_zero hcode h hlt) hnot
      · exact .inl ((haround address hlt hnot).mp haddress)
      · exact .inr ⟨hnot, haddress⟩
    · rintro ⟨hlt, haddress | ⟨hnot, haddress⟩⟩
      · obtain ⟨target, hstrayMem, rfl⟩ := haddress
        have hnot := ((hstrayIff target).mp hstrayMem).2
        have haround := (haround _ hlt hnot).mpr ⟨target, hstrayMem, rfl⟩
        exact ⟨⟨hlt, .inr (.inl haround)⟩, hnot⟩
      · exact ⟨⟨hlt, .inr (.inr haddress)⟩, hnot⟩
  refine ⟨starts, blocks, stray, hstarts, hblocks, hstray, hstartsIff, ?_, ?_, hstartsRoom,
    hblocksRoom, capacity_mark_withCapacity code.length⟩
  · intro address
    simp only [hagree, mem_handlerOffsets_iff]
  · intro hnone haligned address hblock
    by_contra hnot
    obtain ⟨hlt, hreason⟩ := (hagree address).mp ⟨hblock, Bool.not_eq_true _ ▸ hnot⟩
    rcases hreason with hstrayMem | ⟨-, handler, hmem, haddress⟩
    · obtain ⟨target, hmem, -⟩ := hstrayMem
      rw [hnone] at hmem
      exact absurd hmem List.not_mem_nil
    · have hfits : isAligned code.length starts handler = true := by
        have hkept := List.filter_eq_nil_iff.mp haligned handler hmem
        simpa using hkept
      exact hnot (contains_of_isAligned hfits hlt haddress)

/-- A jump into its own operand, where a handler starts, too, before the last instruction. -/
theorem analyses_agree_of_jump_inside :
    IsCodeArray [0xa7, 0x00, 0x02, 0xb1]
    ∧ (disassemble (Pool.empty ⟨0⟩) [0xa7, 0x00, 0x02, 0xb1]).failure = none
    ∧ ∃ starts blocks, instructionStarts (Pool.empty ⟨0⟩) [0xa7, 0x00, 0x02, 0xb1] = .ok starts
      ∧ blockStarts (Pool.empty ⟨0⟩) [0xa7, 0x00, 0x02, 0xb1]
        [⟨.fixed 1, .fixed 4, .fixed 3, none⟩] = .ok blocks
      ∧ blocks.contains 1 = true ∧ starts.contains 1 = false ∧ starts.contains 3 = true
      ∧ blocks.capacity = 32 := by
  have hcode : IsCodeArray [0xa7, 0x00, 0x02, 0xb1] := by decide
  have hok : (disassemble (Pool.empty ⟨0⟩) [0xa7, 0x00, 0x02, 0xb1]).failure = none := rfl
  have hinstructions : (disassemble (Pool.empty ⟨0⟩) [0xa7, 0x00, 0x02, 0xb1]).instructions
      = [⟨0, ⟨0xa7⟩, false, .branch 2⟩, ⟨3, ⟨0xb1⟩, false, .nothing⟩] := by
    decide
  obtain ⟨starts, blocks, stray, hstarts, hblocks, -, hiff, hagree, -, -, hroom, -⟩ :=
    analyses_agree (Pool.empty ⟨0⟩) [0xa7, 0x00, 0x02, 0xb1] [⟨.fixed 1, .fixed 4, .fixed 3, none⟩]
      hcode hok
  have hmissing : starts.contains 1 = false := by
    rw [← Bool.not_eq_true, hiff, hinstructions]
    decide
  have hlast : starts.contains 3 = true := by
    rw [hiff, hinstructions]
    decide
  have hblock := (hagree 1).mpr
    ⟨by decide, .inr ⟨hmissing, _, List.mem_singleton_self _, .inl rfl⟩⟩
  exact ⟨hcode, hok, starts, blocks, hstarts, hblocks, hblock.1, hmissing, hlast, hroom⟩

end Flow

end ClassFormat
