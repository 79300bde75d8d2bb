import ClassFormat.Proofs.Code.Flow
/-!
# Where basic blocks start

Blocks start at the beginning of the code, at branch targets, behind branches and behind
instructions that do not fall through, and at the offsets of exception handlers: this is the list
`Flow.BeginsBlock`. The analysis takes for a branch what has a branch target. That leaves out a
branch whose offset leads out of the range of addresses, for example back to before the start of the
code, so it may pass over the address behind that branch (`Flow.PassedOver`). A switch is left out,
too, if all its offsets lead there, but since it does not fall through that makes no difference.

`Flow.blockStarts_unless_passedOver` says that nothing else is missing and nothing else is found.
-/

namespace ClassFormat

variable {pool : Pool} {code : Bytes}

/-! ## Branches -/

/-- Whether the operands have an offset to branch to. -/
def Operands.isBranch : Operands → Bool
  | branch _ | tableSwitch .. | lookupSwitch .. => true
  | _ => false

/-- Only branches have offsets to jump by. -/
theorem Operands.isBranch_of_mem_branchOffsets {operands : Operands} {offset : Int32}
    (h : offset ∈ operands.branchOffsets) : operands.isBranch = true := by
  cases operands with
  | branch | tableSwitch | lookupSwitch => rfl
  | _ => cases h

/-- Switches do not fall through. -/
theorem Opcode.endsBlock_of_form {opcode : Opcode}
    (h : opcode.form = .tableSwitch ∨ opcode.form = .lookupSwitch) : opcode.endsBlock = true := by
  have hall : ∀ byte : Fin (2 ^ 8),
      (Opcode.mk (UInt8.ofFin byte)).form = .tableSwitch
        ∨ (Opcode.mk (UInt8.ofFin byte)).form = .lookupSwitch →
      (Opcode.mk (UInt8.ofFin byte)).endsBlock = true := by
    decide +kernel
  exact hall opcode.byte.toFin h

namespace Instruction

variable {instruction : Instruction}

/-- A branch that may fall through and whose offset leads out of the range of addresses. -/
def LeadsAstray (instruction : Instruction) : Prop :=
  instruction.opcode.endsBlock = false ∧ ∃ offset, instruction.operands = .branch offset
    ∧ ¬ (0 ≤ (instruction.address.toNat : Int) + offset.toInt
      ∧ (instruction.address.toNat : Int) + offset.toInt < UInt32.size)

/-- What has a branch target is a branch. -/
theorem isBranch_of_mem_branchTargets {target : UInt32} (h : target ∈ instruction.branchTargets) :
    instruction.operands.isBranch = true := by
  obtain ⟨offset, hmem, -⟩ := List.mem_filterMap.mp h
  exact Operands.isBranch_of_mem_branchOffsets hmem

/-- A branch has no target exactly if its offset leads out of the range of addresses. -/
theorem branchTargets_eq_nil_iff {offset : Int32} (h : instruction.operands = .branch offset) :
    instruction.branchTargets = [] ↔ ¬ (0 ≤ (instruction.address.toNat : Int) + offset.toInt
      ∧ (instruction.address.toNat : Int) + offset.toInt < UInt32.size) := by
  simp [branchTargets, h, Operands.branchOffsets]

/-- A branch of the grammar that may fall through is no switch. -/
theorem WellFormed.exists_branch (hwell : instruction.WellFormed pool)
    (hbranch : instruction.operands.isBranch = true)
    (hfalls : instruction.opcode.endsBlock = false) :
    ∃ offset, instruction.operands = .branch offset := by
  have hfits := hwell.fits
  rw [form, ← Opcode.form_eq_named] at hfits
  cases hoperands : instruction.operands with
  | branch offset => exact ⟨offset, rfl⟩
  | tableSwitch =>
    rw [hoperands] at hfits
    generalize hform : instruction.opcode.form = form at hfits
    cases hfits
    rw [Opcode.endsBlock_of_form (.inl hform)] at hfalls
    cases hfalls
  | lookupSwitch =>
    rw [hoperands] at hfits
    generalize hform : instruction.opcode.form = form at hfits
    cases hfits
    rw [Opcode.endsBlock_of_form (.inr hform)] at hfalls
    cases hfalls
  | _ =>
    rw [hoperands] at hbranch
    cases hbranch

/-- A branch of the grammar that may fall through leads astray exactly if it has no target. -/
theorem WellFormed.leadsAstray_iff (hwell : instruction.WellFormed pool)
    (hbranch : instruction.operands.isBranch = true)
    (hfalls : instruction.opcode.endsBlock = false) :
    instruction.LeadsAstray ↔ instruction.branchTargets = [] := by
  obtain ⟨offset, hoperands⟩ := hwell.exists_branch hbranch hfalls
  rw [branchTargets_eq_nil_iff hoperands]
  constructor
  · rintro ⟨-, other, hother, hastray⟩
    obtain rfl : offset = other := Operands.branch.inj (hoperands.symm.trans hother)
    exact hastray
  · exact fun hastray => ⟨hfalls, offset, hoperands, hastray⟩

end Instruction

/-! ## Instructions by their ends -/

/-- No two instructions of a walk end at the same address. -/
theorem Walk.Runs.eq_of_nextAddress_eq {walk stop : Walk} {instructions : List Instruction}
    {failure : Option Error} {first second : Instruction}
    (h : Runs pool walk instructions failure stop) (hwalk : walk.Addressable)
    (hfirst : first ∈ instructions) (hsecond : second ∈ instructions)
    (heq : first.nextAddress = second.nextAddress) : first = second := by
  induction h, hwalk using Runs.stepInduction with
  | finish | refuse => exact absurd hfirst List.not_mem_nil
  | @step _ _ _ front others _ _ hruns hwalk hsteps ih =>
    have hlater := hsteps.addressable hwalk
    -- Those behind the one in front start where it ends, or later.
    have hbehind (other : Instruction) (hmem : other ∈ others) :
        front.nextAddress ≠ other.nextAddress := by
      have hfront := (hsteps.toNat_nextAddress hwalk).1
      have hle := hruns.position_le hlater hmem
      obtain ⟨hpos, hsum⟩ := hruns.length_of_mem hlater hmem
      intro heq
      rw [← heq] at hsum
      omega
    rcases List.mem_cons.mp hfirst with rfl | hfirstLater
    · rcases List.mem_cons.mp hsecond with rfl | hsecondLater
      · rfl
      · exact absurd heq (hbehind second hsecondLater)
    · rcases List.mem_cons.mp hsecond with rfl | hsecondLater
      · exact absurd heq.symm (hbehind first hfirstLater)
      · exact ih hfirstLater hsecondLater

namespace Disassembly

/-- No two instructions of a code array end at the same address. -/
theorem eq_of_nextAddress_eq (hcode : IsCodeArray code) {first second : Instruction}
    (hfirst : first ∈ (disassemble pool code).instructions)
    (hsecond : second ∈ (disassemble pool code).instructions)
    (heq : first.nextAddress = second.nextAddress) : first = second :=
  (runs_disassemble pool hcode).eq_of_nextAddress_eq (Walk.addressable_start hcode) hfirst hsecond
    heq

end Disassembly

/-! ## Block starts -/

namespace Flow

variable {address : Nat} {handlers : List ExceptionHandler}

/-- Why a basic block starts at an address inside the code. -/
inductive BeginsBlock (found : Disassembly) (handlers : List ExceptionHandler) : Nat → Prop where
  | first : BeginsBlock found handlers 0
  | target {instruction : Instruction} {target : UInt32} (hmem : instruction ∈ found.instructions)
    (htarget : target ∈ instruction.branchTargets) : BeginsBlock found handlers target.toNat
  | behindBranch {instruction : Instruction} (hmem : instruction ∈ found.instructions)
    (hbranch : instruction.operands.isBranch = true) :
    BeginsBlock found handlers instruction.nextAddress.toNat
  | behindEnd {instruction : Instruction} (hmem : instruction ∈ found.instructions)
    (hends : instruction.opcode.endsBlock = true) :
    BeginsBlock found handlers instruction.nextAddress.toNat
  | ofHandler {handler : ExceptionHandler} {address : Nat} (hmem : handler ∈ handlers)
    (hoffset : handler.start = .fixed address ∨ handler.stop = .fixed address
      ∨ handler.target = .fixed address) : BeginsBlock found handlers address

/-- An address behind a branch that leads astray, without any other reason for a block to start
there. -/
structure PassedOver (found : Disassembly) (handlers : List ExceptionHandler) (address : Nat) :
    Prop where
  behind : ∃ instruction ∈ found.instructions,
    instruction.nextAddress.toNat = address ∧ instruction.LeadsAstray
  no_target : ∀ instruction ∈ found.instructions, ∀ target ∈ instruction.branchTargets,
    target.toNat ≠ address
  no_handler : ∀ handler ∈ handlers, handler.start ≠ .fixed address
    ∧ handler.stop ≠ .fixed address ∧ handler.target ≠ .fixed address

/-- Whatever an instruction makes start a block is one of the list, and not passed over. -/
theorem beginsBlock_of_mem_blocksAround (hcode : IsCodeArray code) {instruction : Instruction}
    (hmem : instruction ∈ (disassemble pool code).instructions)
    (haddress : address ∈ blocksAround instruction) :
    BeginsBlock (disassemble pool code) handlers address
      ∧ ¬ PassedOver (disassemble pool code) handlers address := by
  rcases mem_blocksAround_iff.mp haddress with hbranches | ⟨rfl, hreason⟩
  · obtain ⟨target, htarget, rfl⟩ := List.mem_map.mp hbranches
    exact ⟨.target hmem htarget, fun hpassed =>
      hpassed.no_target instruction hmem target htarget rfl⟩
  refine ⟨?_, ?_⟩
  · rcases hreason with hbranches | hends
    · obtain ⟨target, htarget⟩ := List.exists_mem_of_ne_nil _ hbranches
      exact .behindBranch hmem (Instruction.isBranch_of_mem_branchTargets htarget)
    · exact .behindEnd hmem hends
  · rintro ⟨⟨other, hother, heq, hastray⟩, -, -⟩
    obtain rfl := Disassembly.eq_of_nextAddress_eq hcode hother hmem (UInt32.toNat_inj.mp heq)
    obtain ⟨hfalls, offset, hoperands, hout⟩ := hastray
    rcases hreason with hbranches | hends
    · exact hbranches ((Instruction.branchTargets_eq_nil_iff hoperands).mpr hout)
    · rw [hfalls] at hends
      cases hends

/-- The address behind a branch is marked, unless the branch leads astray. -/
theorem mem_blocksAround_of_isBranch {instruction : Instruction}
    (hmem : instruction ∈ (disassemble pool code).instructions)
    (hbranch : instruction.operands.isBranch = true) :
    instruction.nextAddress.toNat ∈ blocksAround instruction ∨ instruction.LeadsAstray := by
  rw [mem_blocksAround_iff]
  cases hends : instruction.opcode.endsBlock with
  | true => exact .inl (.inr ⟨rfl, .inr rfl⟩)
  | false =>
    by_cases htargets : instruction.branchTargets = []
    · have hwell := (Disassembly.standsIn_of_mem hmem).1
      exact .inr ((hwell.leadsAstray_iff hbranch hends).mpr htargets)
    · exact .inl (.inr ⟨rfl, .inl htargets⟩)

/-- **Block starts, exactly.** Of code that can be read to its end, with any exception handlers: the
analysis finds the addresses inside the code at which a basic block starts, all but those behind a
branch that leads out of the range of addresses, unless there is another reason for a block to start
there. What it keeps has the room of the code in whole words. -/
theorem blockStarts_unless_passedOver (pool : Pool) (code : Bytes)
    (handlers : List ExceptionHandler) (hcode : IsCodeArray code)
    (h : (disassemble pool code).failure = none) :
    ∃ blocks, blockStarts pool code handlers = .ok blocks
      ∧ (∀ address, blocks.contains address = true ↔ address < code.length
        ∧ BeginsBlock (disassemble pool code) handlers address
        ∧ ¬ PassedOver (disassemble pool code) handlers address)
      ∧ blocks.capacity = roundedUp code.length := by
  obtain ⟨blocks, hblocks, hcontains, hroom⟩ := exists_blockStarts h handlers
  refine ⟨blocks, hblocks, fun address => ?_, hroom⟩
  rw [hcontains]
  refine and_congr_right fun _ => ⟨?_, ?_⟩
  · rintro (rfl | ⟨instruction, hmem, haddress⟩ | ⟨handler, hmem, haddress⟩)
    · refine ⟨.first, ?_⟩
      rintro ⟨⟨instruction, hmem, heq, -⟩, -, -⟩
      have hlt := (Disassembly.nextAddress_le hcode hmem).1
      omega
    · exact beginsBlock_of_mem_blocksAround hcode hmem haddress
    · have hoffset := mem_handlerOffsets_iff.mp haddress
      refine ⟨.ofHandler hmem hoffset, fun hpassed => ?_⟩
      obtain ⟨hstart, hstop, htarget⟩ := hpassed.no_handler handler hmem
      rcases hoffset with heq | heq | heq
      · exact hstart heq
      · exact hstop heq
      · exact htarget heq
  · rintro ⟨hbegins, hfound⟩
    cases hbegins with
    | first => exact .inl rfl
    | target hmem htarget =>
      exact .inr (.inl ⟨_, hmem, mem_blocksAround_iff.mpr (.inl (List.mem_map_of_mem htarget))⟩)
    | behindEnd hmem hends =>
      exact .inr (.inl ⟨_, hmem, mem_blocksAround_iff.mpr (.inr ⟨rfl, .inr hends⟩)⟩)
    | ofHandler hmem hoffset =>
      exact .inr (.inr ⟨_, hmem, mem_handlerOffsets_iff.mpr hoffset⟩)
    | @behindBranch instruction hmem hbranch =>
      rcases mem_blocksAround_of_isBranch hmem hbranch with haround | hastray
      · exact .inr (.inl ⟨instruction, hmem, haround⟩)
      -- Not passed over in spite of the branch, so another reason remains.
      by_contra hnone
      rw [not_or, not_or] at hnone
      refine hfound ⟨⟨instruction, hmem, rfl, hastray⟩, fun other hother target htarget heq => ?_,
        fun handler hhandler => ?_⟩
      · have hbranches := List.mem_map_of_mem (f := UInt32.toNat) htarget
        rw [heq] at hbranches
        exact hnone.2.1 ⟨other, hother, mem_blocksAround_iff.mpr (.inl hbranches)⟩
      · rw [← not_or, ← not_or]
        exact fun hoffset => hnone.2.2 ⟨handler, hhandler, mem_handlerOffsets_iff.mpr hoffset⟩

/-- Behind a conditional branch to before the start of the code a block starts if a handler ends
there. -/
theorem blockStarts_of_handler_behind :
    IsCodeArray [0x99, 0xff, 0xff, 0xb1]
    ∧ (disassemble (Pool.empty ⟨0⟩) [0x99, 0xff, 0xff, 0xb1]).failure = none
    ∧ ∃ blocks, blockStarts (Pool.empty ⟨0⟩) [0x99, 0xff, 0xff, 0xb1]
        [⟨.fixed 0, .fixed 3, .fixed 3, none⟩] = .ok blocks
      ∧ blocks.contains 3 = true ∧ blocks.capacity = 32 := by
  have hcode : IsCodeArray [0x99, 0xff, 0xff, 0xb1] := by decide
  have hok : (disassemble (Pool.empty ⟨0⟩) [0x99, 0xff, 0xff, 0xb1]).failure = none := rfl
  obtain ⟨blocks, hblocks, hiff, hroom⟩ := blockStarts_unless_passedOver (Pool.empty ⟨0⟩)
    [0x99, 0xff, 0xff, 0xb1] [⟨.fixed 0, .fixed 3, .fixed 3, none⟩] hcode hok
  refine ⟨hcode, hok, blocks, hblocks, (hiff 3).mpr ⟨by decide, ?_, ?_⟩, hroom⟩
  · exact .ofHandler (List.mem_singleton_self _) (.inr (.inl rfl))
  · exact fun hpassed => (hpassed.no_handler _ (List.mem_singleton_self _)).2.1 rfl

/-- Without the handler the block is missing, although it is on the list. -/
theorem block_missing_behind_branch :
    let found := disassemble (Pool.empty ⟨0⟩) [0x99, 0xff, 0xff, 0xb1]
    found.failure = none
      ∧ ¬ ∃ blocks, blockStarts (Pool.empty ⟨0⟩) [0x99, 0xff, 0xff, 0xb1] [] = .ok blocks
        ∧ ∀ address, blocks.contains address = true
          ↔ address < 4 ∧ BeginsBlock found [] address := by
  intro found
  have hok : found.failure = none := rfl
  have hfound : found.instructions
      = [⟨0, ⟨0x99⟩, false, .branch (-1)⟩, ⟨3, ⟨0xb1⟩, false, .nothing⟩] := by
    decide
  refine ⟨hok, ?_⟩
  rintro ⟨blocks, hblocks, hiff⟩
  have hbranch : (⟨0, ⟨0x99⟩, false, .branch (-1)⟩ : Instruction) ∈ found.instructions := by
    rw [hfound]
    exact List.mem_cons_self
  have hmarked : blocks.contains 3 = true := (hiff 3).mpr ⟨by decide, .behindBranch hbranch rfl⟩
  obtain ⟨others, hothers, hcontains, -⟩ := exists_blockStarts hok []
  obtain rfl : blocks = others := Except.ok.inj (hblocks.symm.trans hothers)
  have hreason := ((hcontains 3).mp hmarked).2
  rw [hfound] at hreason
  revert hreason
  decide

end Flow

end ClassFormat
