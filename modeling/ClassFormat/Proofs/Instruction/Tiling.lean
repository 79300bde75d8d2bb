import ClassFormat.Proofs.Instruction.Decoding
/-!
# Instructions tile the code

A walk over code is an iterator: it is asked for the next instruction again and again, and answers
one instruction, one cause of failure, or that nothing is left. What one call can do is said once
(`Walk.call_of_over`, `Walk.found_of_next?`, `Walk.step_error`): a walk that is over stays where it
is, an instruction starts where the walk stands and moves it behind the instruction, and a failure
names the place where the walk stands, which it does not leave.

`Walk.Runs` strings the calls together until the walk is over. Each observation of a walk, call by
call, is an induction along it, and `disassemble_tiles` puts them together for the walk from the
start of a code array. What is counted in bytes is about code whose bytes have addresses, which each
step leaves so (`Walk.Steps.addressable`).
-/

namespace ClassFormat

/-- The address that a cause of failure names, if it is one of code. -/
def Error.address? : Error → Option UInt32
  | invalidOpcode address _ | invalidWideOpcode address _ | truncatedInstruction address _
  | invalidSwitch address => some address
  | _ => none

variable {pool : Pool} {address : UInt32}

/-! ## Why an instruction cannot be read -/

namespace Reader

variable {α β : Type} {causes others : Error → Prop} {reader : Reader α}

/-- Whatever a reader refuses its input for is one of some causes. -/
def FailsOnly (reader : Reader α) (causes : Error → Prop) : Prop :=
  ∀ input cause, (reader input).outcome = .error cause → causes cause

namespace FailsOnly

protected theorem pure (value : α) : (pure value : Reader α).FailsOnly causes := nofun

theorem fail {cause : Error} (h : causes cause) :
    (Reader.fail cause : Reader α).FailsOnly causes := by
  rintro input _ ⟨⟩
  exact h

/-- Errors of two steps are of one kind if those of each step are. -/
theorem bind (h : reader.FailsOnly causes) {next : α → Reader β}
    (hnext : ∀ value, (next value).FailsOnly causes) : (reader >>= next).FailsOnly causes := by
  intro input cause hcause
  rcases reading_cases (reader input) with ⟨value, rest, hreading⟩ | ⟨refusal, hreading⟩
  · rw [run_bind_ok hreading] at hcause
    exact hnext value rest cause hcause
  · rw [run_bind_error hreading] at hcause
    refine h input cause ?_
    rw [hreading]
    simpa using hcause

theorem map (h : reader.FailsOnly causes) (f : α → β) : (f <$> reader).FailsOnly causes := by
  rw [map_eq_pure_bind]
  exact h.bind fun value => .pure (f value)

end FailsOnly

/-- A reader fails because the input ends, or for a cause that names the address. -/
def Blames (address : UInt32) (reader : Reader α) : Prop :=
  reader.FailsOnly fun cause =>
    (∃ wanted, cause = .endOfInput wanted) ∨ cause.address? = some address

/-- Where bytes are missing, the instruction that wants them is blamed. -/
theorem blames_take (wanted : Shortfall) (length : Nat) : (take wanted length).Blames address := by
  intro input cause h
  simp only [take] at h
  split at h
  · cases h
  · cases h
    exact .inl ⟨wanted, rfl⟩

/-- A reader that takes blocks of known lengths, one after the other, and complains of what is in
them by the address only. -/
inductive Scans (address : UInt32) : {α : Type} → Reader α → Prop where
  | pure {α : Type} (value : α) : Scans address (pure value : Reader α)
  | refuse {α : Type} {cause : Error} (h : cause.address? = some address) :
    Scans address (Reader.fail cause : Reader α)
  | take (wanted : Shortfall) (length : Nat) : Scans address (Reader.take wanted length)
  | bind {α β : Type} {reader : Reader α} {next : α → Reader β} : Scans address reader →
    (∀ value, Scans address (next value)) → Scans address (reader >>= next)

namespace Scans

theorem map (h : reader.Scans address) (f : α → β) : (f <$> reader).Scans address := by
  rw [map_eq_pure_bind]
  exact h.bind fun value => .pure (f value)

theorem many (h : reader.Scans address) (count : Nat) :
    (Reader.many count reader).Scans address := by
  induction count with
  | zero =>
    rw [many_zero]
    exact .pure []
  | succ count ih =>
    rw [many_succ]
    exact h.bind fun value => ih.map (value :: ·)

theorem block (length : Nat) : (block length).Scans address := .take .block length

theorem number (width : Nat) : (number width).Scans address :=
  map (.take .number width) BigEndian.decode

theorem u8 : u8.Scans address := (number 1).map _

theorem u16 : u16.Scans address := (number 2).map _

theorem i8 : i8.Scans address := u8.map _

theorem i16 : i16.Scans address := u16.map _

theorem i32 : i32.Scans address := map ((number 4).map _) _

theorem blames (h : reader.Scans address) : reader.Blames address := by
  induction h with
  | pure value => exact FailsOnly.pure value
  | refuse hcause => exact FailsOnly.fail (.inr hcause)
  | take wanted length => exact blames_take wanted length
  | bind _ _ ih ihNext => exact FailsOnly.bind ih ihNext

end Scans

/-- With the end of the input put down to the instruction, every cause names the address. -/
theorem Blames.orTruncated (h : reader.Blames address) (opcode : Opcode) :
    (reader.orTruncated address opcode).FailsOnly (Error.address? · = some address) := by
  intro input cause hcause
  unfold Reader.orTruncated at hcause
  split at hcause
  next =>
    cases hcause
    rfl
  next hends =>
    rcases h input cause hcause with ⟨wanted, rfl⟩ | hblamed
    · exact absurd (congrArg (Reading.mk · _) hcause) (hends wanted (reader input).notices)
    · exact hblamed

end Reader

namespace Operands

open Reader

theorem scans_readConstant {α : Type} (make : UInt16 → Option ConstantId → α) :
    (readConstant pool make).Scans address :=
  .bind .u16 fun _ => .pure _

theorem scans_readTableSwitch : (readTableSwitch address).Scans address := by
  refine .bind (.block _) fun _ => .bind .i32 fun _ => .bind .i32 fun low =>
    .bind .i32 fun high => ?_
  split
  · exact .refuse rfl
  · exact (Scans.i32.many _).map _

theorem scans_readLookupSwitch : (readLookupSwitch address).Scans address := by
  refine .bind (.block _) fun _ => .bind .i32 fun _ => .bind .i32 fun count => ?_
  split
  · exact .refuse rfl
  · refine (Scans.many ?_ _).map _
    exact .bind .i32 fun _ => .bind .i32 fun _ => .pure _

/-- Operands are taken off the code block by block, whatever their form. -/
theorem scans_read (opcode : Opcode) (isWide : Bool) :
    (Operands.read pool address opcode isWide).Scans address := by
  unfold Operands.read
  cases opcode.form with
  | nothing => exact .pure _
  | immediate8 => exact Scans.i8.map _
  | immediate16 => exact Scans.i16.map _
  | constant8 => exact .bind .u8 fun _ => .pure _
  | constant16 => exact scans_readConstant _
  | interfaceCall =>
    exact .bind (scans_readConstant _) fun _ => .bind .u8 fun _ => .bind .u8 fun _ => .pure _
  | dynamicCall => exact .bind (scans_readConstant _) fun _ => .bind .u16 fun _ => .pure _
  | multiArray => exact .bind (scans_readConstant _) fun _ => .bind .u8 fun _ => .pure _
  | localSlot =>
    cases isWide with
    | true => exact Scans.u16.map _
    | false => exact Scans.u8.map _
  | increment =>
    cases isWide with
    | true => exact .bind .u16 fun _ => .bind .i16 fun _ => .pure _
    | false => exact .bind .u8 fun _ => .bind .i8 fun _ => .pure _
  | branch16 => exact Scans.i16.map _
  | branch32 => exact Scans.i32.map _
  | arrayType => exact Scans.u8.map _
  | tableSwitch => exact scans_readTableSwitch
  | lookupSwitch => exact scans_readLookupSwitch

end Operands

namespace Instruction

open Reader

/-- Whatever is wrong with the operands is reported at the address of their instruction. -/
theorem failsOnly_readOperands (opcode : Opcode) (isWide : Bool) :
    (readOperands pool address opcode isWide).FailsOnly (Error.address? · = some address) :=
  ((Operands.scans_read opcode isWide).blames.orTruncated opcode).map _

/-- Where there is code, whatever keeps an instruction from being read names its address. -/
theorem address?_of_read_eq_error {input : Bytes} {cause : Error} (hne : input ≠ [])
    (h : (Instruction.read pool address input).outcome = .error cause) :
    cause.address? = some address := by
  obtain ⟨byte, rest, rfl⟩ := List.exists_cons_of_ne_nil hne
  have hfirst : u8 (byte :: rest) = ⟨.ok (byte, rest), []⟩ := reads_u8.mpr ⟨rfl, rfl⟩
  rw [Instruction.read, run_bind_ok hfirst] at h
  split at h
  next =>
    refine ((Scans.u8.blames.orTruncated _).bind fun second => ?_) rest cause h
    dsimp only
    split
    · exact failsOnly_readOperands _ _
    · exact .fail rfl
  next =>
    split at h
    · exact failsOnly_readOperands _ _ rest cause h
    · cases h
      rfl

end Instruction

/-! ## One call -/

namespace Walk

variable {walk later stop : Walk} {instruction : Instruction} {instructions : List Instruction}
  {cause : Error} {failure : Option Error}

/-- One call for the next instruction: the answer, and the walk left by it. -/
def call (pool : Pool) (walk : Walk) : Option (Except Error Instruction) × Walk :=
  match walk.next? pool with
  | some (found, later) => (some found, later)
  | none => (none, walk)

/-- The walk left by a number of calls. -/
def after (pool : Pool) : Nat → Walk → Walk
  | 0, walk => walk
  | calls + 1, walk => after pool calls (walk.call pool).2

/-- What a walk answers behind a number of calls. -/
def answer (pool : Pool) (calls : Nat) (walk : Walk) : Option (Except Error Instruction) :=
  ((walk.after pool calls).call pool).1

theorem call_of_next? {found : Except Error Instruction}
    (h : walk.next? pool = some (found, later)) :
    walk.call pool = (some found, later) := by
  rw [call, h]

/-- The last one of some calls is a call to the walk left by those before it. -/
theorem after_succ (calls : Nat) (walk : Walk) :
    walk.after pool (calls + 1) = ((walk.after pool calls).call pool).2 := by
  induction calls generalizing walk with
  | zero => rfl
  | succ calls ih => exact ih (walk.call pool).2

/-- Whatever the bytes, an instruction is answered at the address where the walk stands, and the
walk goes on at the next one. -/
theorem address_of_answer {calls : Nat} (h : walk.answer pool calls = some (.ok instruction)) :
    instruction.address = (walk.after pool calls).address
      ∧ (walk.after pool (calls + 1)).address = instruction.nextAddress := by
  rw [answer, call] at h
  rw [after_succ, call]
  split at h
  next found later hnext =>
    obtain rfl : found = .ok instruction := Option.some.inj h
    obtain ⟨haddress, -, -, rfl⟩ := found_of_next? hnext
    refine ⟨haddress, ?_⟩
    rw [address_skip, Instruction.nextAddress, haddress]
  next => cases h

/-- A walk that is over answers nothing and stays where it is. -/
theorem call_of_over (h : walk.failed = true ∨ walk.rest = []) : walk.call pool = (none, walk) := by
  rw [call, next?, if_pos h]

/-- A failure names the address where the walk stands, and ends the walk there. -/
theorem step_error (h : walk.next? pool = some (.error cause, later)) :
    cause.address? = some walk.address ∧ later = { walk with failed := true } := by
  unfold next? at h
  split at h
  next => cases h
  next hover =>
    split at h
    next => cases h
    next refusal houtcome =>
      obtain ⟨⟨rfl⟩, rfl⟩ := Prod.mk.inj (Option.some.inj h)
      exact ⟨Instruction.address?_of_read_eq_error (fun hnil => hover (.inr hnil)) houtcome, rfl⟩

/-! ## All calls -/

/-- A walk, call after call until it is over: the instructions it answers, the failure behind them
if there is one, and where it stops. -/
inductive Runs (pool : Pool) : Walk → List Instruction → Option Error → Walk → Prop where
  | finish {walk : Walk} : walk.rest = [] → Runs pool walk [] none walk
  | refuse {walk stop : Walk} {cause : Error} :
    walk.next? pool = some (.error cause, stop) → Runs pool walk [] (some cause) stop
  | step {walk later stop : Walk} {instruction : Instruction} {instructions : List Instruction}
    {failure : Option Error} : walk.next? pool = some (.ok instruction, later) →
      Runs pool later instructions failure stop →
        Runs pool walk (instruction :: instructions) failure stop

/-- Where a run stops, the walk is over. -/
theorem Runs.over (h : Runs pool walk instructions failure stop) :
    stop.failed = true ∨ stop.rest = [] := by
  induction h with
  | finish hnil => exact .inr hnil
  | refuse hnext =>
    rw [(step_error hnext).2]
    exact .inl rfl
  | step _ _ ih => exact ih

/-- A walk that is over stays over. -/
theorem after_of_over (h : walk.failed = true ∨ walk.rest = []) (calls : Nat) :
    walk.after pool calls = walk := by
  induction calls with
  | zero => rfl
  | succ calls ih => rw [after, call_of_over h, ih]

/-- The first calls answer the instructions. -/
theorem Runs.answer_of_lt (h : Runs pool walk instructions failure stop) {k : Nat}
    (hk : k < instructions.length) : walk.answer pool k = some (.ok instructions[k]) := by
  induction h generalizing k with
  | finish | refuse => exact absurd hk (Nat.not_lt_zero k)
  | step hnext _ ih =>
    have hcall := call_of_next? hnext
    cases k with
    | zero => simp only [answer, after, hcall, List.getElem_cons_zero]
    | succ k =>
      simp only [answer, after, hcall, List.getElem_cons_succ]
      exact ih (Nat.lt_of_succ_lt_succ hk)

/-- Induction along a run over bytes that have addresses: what is answered is a step of the walk,
and so leaves such bytes to the rest of the run. -/
@[elab_as_elim]
theorem Runs.stepInduction {motive : {walk stop : Walk} → {instructions : List Instruction} →
      {failure : Option Error} → Runs pool walk instructions failure stop → walk.Addressable → Prop}
    (finish : ∀ {walk : Walk} (hnil : walk.rest = []) (hwalk : walk.Addressable),
      motive (.finish hnil) hwalk)
    (refuse : ∀ {walk stop : Walk} {cause : Error}
      (hnext : walk.next? pool = some (.error cause, stop)) (hwalk : walk.Addressable),
      motive (.refuse hnext) hwalk)
    (step : ∀ {walk later stop : Walk} {instruction : Instruction}
      {instructions : List Instruction} {failure : Option Error}
      (hnext : walk.next? pool = some (.ok instruction, later))
      (hruns : Runs pool later instructions failure stop) (hwalk : walk.Addressable)
      (hsteps : walk.Steps pool instruction later),
      motive hruns (hsteps.addressable hwalk) → motive (.step hnext hruns) hwalk)
    (h : Runs pool walk instructions failure stop) (hwalk : walk.Addressable) :
    motive h hwalk := by
  induction h with
  | finish hnil => exact finish hnil hwalk
  | refuse hnext => exact refuse hnext hwalk
  | step hnext hruns ih =>
    have hsteps := steps_of_next? hwalk hnext
    exact step hnext hruns hwalk hsteps (ih (hsteps.addressable hwalk))

/-- Instructions are not empty, and each one ends as far behind its address as it is long. -/
theorem Runs.length_of_mem (h : Runs pool walk instructions failure stop)
    (hwalk : walk.Addressable) (hmem : instruction ∈ instructions) :
    0 < instruction.length.toNat
      ∧ instruction.nextAddress.toNat
        = instruction.address.toNat + instruction.length.toNat := by
  induction h, hwalk using Runs.stepInduction with
  | finish | refuse => exact absurd hmem List.not_mem_nil
  | step _ _ hwalk hsteps ih =>
    rcases List.mem_cons.mp hmem with rfl | hmem
    · exact ⟨hsteps.length_pos, (hsteps.toNat_nextAddress hwalk).2⟩
    · exact ih hmem

/-- No instruction starts in front of the walk. -/
theorem Runs.position_le (h : Runs pool walk instructions failure stop)
    (hwalk : walk.Addressable) (hmem : instruction ∈ instructions) :
    walk.position ≤ instruction.address.toNat := by
  induction h, hwalk using Runs.stepInduction with
  | finish | refuse => exact absurd hmem List.not_mem_nil
  | step _ _ hwalk hsteps ih =>
    have hlater := hsteps.position_eq
    rcases List.mem_cons.mp hmem with rfl | hmem
    · exact Nat.le_of_eq (hsteps.toNat_address hwalk).symm
    · have hle := ih hmem
      omega

/-- No instruction reaches past the end of the code. -/
theorem Runs.nextAddress_le (h : Runs pool walk instructions failure stop)
    (hwalk : walk.Addressable) (hmem : instruction ∈ instructions) :
    instruction.nextAddress.toNat ≤ walk.position + walk.rest.length := by
  induction h, hwalk using Runs.stepInduction with
  | finish | refuse => exact absurd hmem List.not_mem_nil
  | step _ _ hwalk hsteps ih =>
    have hend := hsteps.end_eq
    rcases List.mem_cons.mp hmem with rfl | hmem
    · have hlater := (hsteps.toNat_nextAddress hwalk).1
      omega
    · exact hend ▸ ih hmem

/-- Instructions take at least one byte each, so there are no more of them than bytes. -/
theorem Runs.length_le (h : Runs pool walk instructions failure stop)
    (hwalk : walk.Addressable) : instructions.length ≤ walk.rest.length := by
  induction h, hwalk using Runs.stepInduction with
  | finish | refuse => simp
  | step _ _ _ hsteps hle =>
    have hlater := hsteps.position_eq
    have hend := hsteps.end_eq
    have hpos := hsteps.length_pos
    rw [List.length_cons]
    omega

/-- The call behind the instructions answers the failure, if there is one. -/
theorem Runs.answer_length (h : Runs pool walk instructions failure stop) :
    walk.answer pool instructions.length = failure.map Except.error := by
  induction h with
  | finish hnil => simp [answer, after, call_of_over (.inr hnil)]
  | refuse hnext => simp [answer, after, call_of_next? hnext]
  | step hnext _ ih =>
    rw [List.length_cons, answer, after, call_of_next? hnext]
    exact ih

/-- From there on the walk stands where it stopped. -/
theorem Runs.after_eq (h : Runs pool walk instructions failure stop) {k : Nat}
    (hk : instructions.length < k) : walk.after pool k = stop := by
  induction h generalizing k with
  | finish hnil => exact after_of_over (.inr hnil) k
  | refuse hnext =>
    obtain ⟨k, rfl⟩ : ∃ less, k = less + 1 := ⟨k - 1, by omega⟩
    rw [after, call_of_next? hnext]
    exact after_of_over (Runs.over (.refuse hnext)) k
  | step hnext _ ih =>
    rw [List.length_cons] at hk
    obtain ⟨k, rfl⟩ : ∃ less, k = less + 1 := ⟨k - 1, by omega⟩
    rw [after, call_of_next? hnext]
    exact ih (Nat.lt_of_succ_lt_succ hk)

/-- The last of the calls that are told apart leaves the walk where it stops, too. -/
theorem Runs.address_after_length (h : Runs pool walk instructions failure stop) :
    (walk.after pool instructions.length).address = stop.address := by
  induction h with
  | finish => rfl
  | refuse hnext =>
    rw [(step_error hnext).2, List.length_nil, after]
    rfl
  | step hnext _ ih =>
    rw [List.length_cons, after, call_of_next? hnext]
    exact ih

/-- What is left where a walk stops reaches to the end of the code. -/
theorem Runs.stop_end (h : Runs pool walk instructions failure stop)
    (hwalk : walk.Addressable) :
    stop.position + stop.rest.length = walk.position + walk.rest.length := by
  induction h, hwalk using Runs.stepInduction with
  | finish => rfl
  | refuse hnext => rw [(step_error hnext).2]
  | step _ _ _ hsteps ih => rw [ih, hsteps.end_eq]

/-- So its place has an address, too. -/
theorem Runs.addressable_stop (h : Runs pool walk instructions failure stop)
    (hwalk : walk.Addressable) : stop.Addressable := by
  rw [Addressable, h.stop_end hwalk]
  exact hwalk

/-- Without a failure the walk stops at the end of the code. -/
theorem Runs.stop_position (h : Runs pool walk instructions none stop)
    (hwalk : walk.Addressable) : stop.position = walk.position + walk.rest.length := by
  generalize hfailure : (none : Option Error) = failure at h
  induction h, hwalk using Runs.stepInduction with
  | finish hnil => rw [hnil, List.length_nil, Nat.add_zero]
  | refuse => cases hfailure
  | step _ _ _ hsteps ih => rw [ih hfailure, hsteps.end_eq]

/-- A failure names the address where the walk stops. -/
theorem Runs.failure_address (h : Runs pool walk instructions (some cause) stop) :
    cause.address? = some stop.address := by
  generalize hfailure : some cause = failure at h
  induction h with
  | finish => cases hfailure
  | refuse hnext =>
    cases hfailure
    rw [(step_error hnext).2]
    exact (step_error hnext).1
  | step _ _ ih => exact ih hfailure

end Walk

/-- Taking code apart is a run of the walk. -/
theorem Disassembly.runs_walkFrom {bound : Nat} (pool : Pool) (found : List Instruction)
    {walk : Walk} (hwalk : walk.Addressable) (hfailed : walk.failed = false)
    (hbound : walk.rest.length < bound) :
    ∃ instructions, (walkFrom pool bound found walk).instructions = found.reverse ++ instructions
      ∧ walk.Runs pool instructions (walkFrom pool bound found walk).failure
        (walkFrom pool bound found walk).stop := by
  induction bound generalizing found walk with
  | zero => exact absurd hbound (Nat.not_lt_zero _)
  | succ bound ih =>
    rcases Walk.next?_cases pool hwalk with ⟨hnext, hover⟩ | ⟨first, later, hnext, hsteps⟩ |
      ⟨cause, hnext⟩
    · simp only [walkFrom, hnext]
      exact ⟨[], by simp, .finish (hover.resolve_left (by simp [hfailed]))⟩
    · have hlater := hsteps.position_eq
      have hend := hsteps.end_eq
      have hpos := hsteps.length_pos
      obtain ⟨others, hothers, hruns⟩ :=
        ih (first :: found) (hsteps.addressable hwalk) hsteps.not_failed (by omega)
      simp only [walkFrom, hnext]
      refine ⟨first :: others, ?_, .step hnext hruns⟩
      rw [hothers, List.reverse_cons, List.append_assoc, List.singleton_append]
    · simp only [walkFrom, hnext]
      exact ⟨[], by simp, .refuse hnext⟩

/-- The instructions of a code array, its failure and the place where it ends are those of a run. -/
theorem runs_disassemble (pool : Pool) {code : Bytes} (hcode : IsCodeArray code) :
    (Walk.start code).Runs pool (disassemble pool code).instructions
      (disassemble pool code).failure (disassemble pool code).stop := by
  obtain ⟨instructions, hfound, hruns⟩ := Disassembly.runs_walkFrom pool []
    (Walk.addressable_start hcode) rfl (Nat.lt_succ_self _)
  obtain rfl : (disassemble pool code).instructions = instructions := hfound
  exact hruns

/-- **Instructions tile the code.** Whatever the bytes, a walk from their start stands at address 0
first, and an instruction that is answered is at the address where the walk stands, which goes on
where the instruction ends, in 32 bits. Of a code array, the walk answers, call by call, the
finitely many instructions found: none of them is empty, past the end of the code, or before the end
of the one before. The next call answers nothing, at the end of the code, or one cause of failure
that names the end of the last instruction. Every call after that answers nothing and leaves the
walk there. -/
theorem disassemble_tiles (pool : Pool) (code : Bytes) :
    let found := disassemble pool code
    let walk := Walk.start code
    (walk.after pool 0).address = 0
      ∧ (∀ k instruction, walk.answer pool k = some (.ok instruction) →
        instruction.address = (walk.after pool k).address
          ∧ (walk.after pool (k + 1)).address = instruction.address + instruction.length)
      ∧ (IsCodeArray code →
        found.instructions.length ≤ code.length
        ∧ (∀ k (hk : k < found.instructions.length),
          walk.answer pool k = some (.ok found.instructions[k])
            ∧ (walk.after pool (k + 1)).address.toNat
              = found.instructions[k].address.toNat + found.instructions[k].length.toNat
            ∧ 1 ≤ found.instructions[k].length.toNat
            ∧ found.instructions[k].address.toNat + found.instructions[k].length.toNat
              ≤ code.length)
        ∧ walk.answer pool found.instructions.length = found.failure.map Except.error
        ∧ (found.failure = none → found.stop.address.toNat = code.length)
        ∧ (∀ cause, found.failure = some cause → cause.address? = some found.stop.address)
        ∧ (∀ k, found.instructions.length ≤ k → (walk.after pool k).address = found.stop.address)
        ∧ ∀ k, found.instructions.length < k → walk.answer pool k = none) := by
  intro found walk
  refine ⟨rfl, fun k instruction => Walk.address_of_answer, fun hcode => ?_⟩
  have hwalk : walk.Addressable := Walk.addressable_start hcode
  have hruns : walk.Runs pool found.instructions found.failure found.stop :=
    runs_disassemble pool hcode
  have hstart : walk.position + walk.rest.length = code.length := Nat.zero_add _
  refine ⟨hruns.length_le hwalk, fun k hk => ?_, hruns.answer_length, fun hnone => ?_,
    fun cause hcause => ?_, fun k hk => ?_, fun k hk => ?_⟩
  · have hanswer := hruns.answer_of_lt hk
    have hnext := (Walk.address_of_answer hanswer).2
    obtain ⟨hpos, hsum⟩ := hruns.length_of_mem hwalk (List.getElem_mem hk)
    have hle := hruns.nextAddress_le hwalk (List.getElem_mem hk)
    exact ⟨hanswer, by rw [hnext, hsum], hpos, by omega⟩
  · have hstop := (hruns.addressable_stop hwalk).toNat_address
    rw [hnone] at hruns
    rw [hstop, hruns.stop_position hwalk, hstart]
  · rw [hcause] at hruns
    exact hruns.failure_address
  · rcases Nat.eq_or_lt_of_le hk with rfl | hk
    · exact hruns.address_after_length
    · rw [hruns.after_eq hk]
  · rw [Walk.answer, hruns.after_eq hk, Walk.call_of_over hruns.over]

/-- A complete instruction, one that the code cuts off, and nothing more. -/
theorem answers_of_cut_off :
    let walk := Walk.start [0x00, 0x11, 0x00]
    IsCodeArray [0x00, 0x11, 0x00]
      ∧ walk.answer (.empty ⟨0⟩) 0 = some (.ok ⟨0, ⟨0x00⟩, false, .nothing⟩)
      ∧ walk.answer (.empty ⟨0⟩) 1 = some (.error (.truncatedInstruction 1 0x11))
      ∧ (walk.after (.empty ⟨0⟩) 7).address = 1 ∧ walk.answer (.empty ⟨0⟩) 7 = none := by
  intro walk
  have hcode : IsCodeArray [0x00, 0x11, 0x00] := by decide
  obtain ⟨-, hanswers, hfailure, -, -, hstop, hnone⟩ :=
    (disassemble_tiles (.empty ⟨0⟩) [0x00, 0x11, 0x00]).2.2 hcode
  exact ⟨hcode, (hanswers 0 (by decide)).1, hfailure, hstop 7 (by decide), hnone 7 (by decide)⟩

end ClassFormat
