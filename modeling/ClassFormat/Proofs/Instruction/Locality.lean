import ClassFormat.Proofs.Instruction.Tiling
/-!
# Decoding is local

An instruction is read off the front of the code and nothing behind it is looked at. So code that
goes on behind its end changes a reading in one case only: when the end was reached too soon
(`Reader.IsLocal`). Whatever is refused for another reason is refused with more code behind it, too,
and it does not matter whether an opcode, a prefix, a padding or a table was cut off.

A walk over the longer code therefore repeats the walk over the shorter one, and goes on from where
that one stopped (`Walk.Runs.resume`). `disassemble_append` compares the two, wherever the code is
cut.
-/

namespace ClassFormat

variable {pool : Pool} {address : UInt32}

/-! ## Inputs that go on -/

/-- The cause is that the input is too short. -/
def Error.isShort : Error → Bool
  | endOfInput _ | truncatedInstruction .. => true
  | _ => false

namespace Reading

variable {α : Type} {reading : Reading α}

/-- The reading of an input that goes on: more is left behind the value. -/
def followedBy (reading : Reading α) (behind : Bytes) : Reading α :=
  ⟨reading.outcome.map fun (value, rest) => (value, rest ++ behind), reading.notices⟩

theorem outcome_followedBy_eq_error_iff {behind : Bytes} {cause : Error} :
    (reading.followedBy behind).outcome = .error cause ↔ reading.outcome = .error cause := by
  rcases reading with ⟨refusal | ⟨value, rest⟩, notices⟩
  · rfl
  · simp [followedBy, Except.map]

end Reading

namespace Reader

variable {α β : Type} {reader : Reader α}

/-- A reading that did not run out of input is left as it is. -/
theorem run_orTruncated_of_ne (opcode : Opcode) {input : Bytes}
    (h : ∀ wanted, (reader input).outcome ≠ .error (.endOfInput wanted)) :
    reader.orTruncated address opcode input = reader input := by
  unfold Reader.orTruncated
  split
  next wanted notices hreading => exact absurd (congrArg Reading.outcome hreading) (h wanted)
  next => rfl

/-- What follows an input makes no difference to its reading, unless the input is too short. -/
def IsLocal (reader : Reader α) : Prop :=
  ∀ input behind, (∃ cause, (reader input).outcome = .error cause ∧ cause.isShort = true)
    ∨ reader (input ++ behind) = (reader input).followedBy behind

namespace IsLocal

/-- Taking bytes looks at no byte behind them. -/
theorem take (wanted : Shortfall) (length : Nat) : (take wanted length).IsLocal := by
  intro input behind
  by_cases hlength : length ≤ input.length
  · have hblock : (input.take length).length = length := List.length_take_of_le hlength
    refine .inr ?_
    rw [Reader.take, Reader.take, List.take_append_of_le_length hlength,
      List.drop_append_of_le_length hlength, if_pos hblock, if_pos hblock]
    rfl
  · refine .inl ⟨.endOfInput wanted, ?_, rfl⟩
    have hblock : (input.take length).length ≠ length := by
      rw [List.length_take]
      omega
    rw [Reader.take, if_neg hblock]

/-- The first reading is the same with more behind it, and leaves that to the second. -/
theorem bind (h : reader.IsLocal) {next : α → Reader β} (hnext : ∀ value, (next value).IsLocal) :
    (reader >>= next).IsLocal := by
  intro input behind
  rcases reading_cases (reader input) with ⟨value, rest, hreading⟩ | ⟨cause, hreading⟩
  · have hlonger : reader (input ++ behind)
        = ⟨.ok (value, rest ++ behind), (reader input).notices⟩ := by
      rcases h input behind with ⟨cause, hcause, -⟩ | hlonger
      · rw [hreading] at hcause
        cases hcause
      · rw [hlonger, hreading]
        rfl
    rw [run_bind_ok hreading, run_bind_ok hlonger]
    rcases hnext value rest behind with hshort | hrest
    · exact .inl hshort
    · rw [hrest]
      exact .inr rfl
  · rcases h input behind with ⟨short, hcause, hshort⟩ | hlonger
    · rw [hreading] at hcause
      cases hcause
      rw [run_bind_error hreading]
      exact .inl ⟨cause, rfl, hshort⟩
    · rw [hreading] at hlonger
      rw [run_bind_error hreading, run_bind_error hlonger]
      exact .inr rfl

theorem map (h : reader.IsLocal) (f : α → β) : (f <$> reader).IsLocal := by
  rw [map_eq_pure_bind]
  exact h.bind fun _ _ _ => .inr rfl

/-- An input that is too short is put down to the instruction, and all else is left as it is. -/
theorem orTruncated (h : reader.IsLocal) (opcode : Opcode) :
    (reader.orTruncated address opcode).IsLocal := by
  intro input behind
  by_cases hends : ∃ wanted, (reader input).outcome = .error (.endOfInput wanted)
  · obtain ⟨wanted, hends⟩ := hends
    have hreading : reader input = ⟨.error (.endOfInput wanted), (reader input).notices⟩ := by
      rw [← hends]
    refine .inl ⟨.truncatedInstruction address opcode.byte, ?_, rfl⟩
    rw [Reader.orTruncated, hreading]
  · rw [run_orTruncated_of_ne opcode (not_exists.mp hends)]
    rcases h input behind with hshort | hlonger
    · exact .inl hshort
    · refine .inr ?_
      rw [run_orTruncated_of_ne opcode, hlonger]
      intro wanted hwanted
      rw [hlonger] at hwanted
      exact hends ⟨wanted, Reading.outcome_followedBy_eq_error_iff.mp hwanted⟩

end IsLocal

/-- Taking one block after the other is local. -/
theorem Scans.isLocal (h : reader.Scans address) : reader.IsLocal := by
  induction h with
  | pure value => exact fun _ _ => .inr rfl
  | refuse => exact fun _ _ => .inr rfl
  | take wanted length => exact .take wanted length
  | bind _ _ ih ihNext => exact ih.bind ihNext

end Reader

namespace Instruction

theorem isLocal_readOperands (opcode : Opcode) (isWide : Bool) :
    (readOperands pool address opcode isWide).IsLocal :=
  ((Operands.scans_read opcode isWide).isLocal.orTruncated opcode).map _

/-- Reading an instruction looks at no more than the instruction. -/
theorem isLocal_read (pool : Pool) (address : UInt32) :
    (Instruction.read pool address).IsLocal := by
  have hbyte : Reader.u8.IsLocal := (@Reader.Scans.u8 address).isLocal
  refine hbyte.bind fun first => ?_
  dsimp only
  split
  · refine (hbyte.orTruncated _).bind fun second => ?_
    split
    · exact isLocal_readOperands _ _
    · exact fun _ _ => .inr rfl
  · split
    · exact isLocal_readOperands _ _
    · exact fun _ _ => .inr rfl

end Instruction

/-! ## Walks over code that goes on -/

/-- The start of the code and the ends of the instructions found. -/
def Disassembly.HasBoundary (found : Disassembly) (position : Nat) : Prop :=
  position = 0 ∨ ∃ instruction ∈ found.instructions, instruction.nextAddress.toNat = position

namespace Walk

variable {walk later stop wholeStop : Walk} {instruction : Instruction}
  {instructions whole : List Instruction} {cause : Error} {failure wholeFailure : Option Error}
  {behind : Bytes}

/-- The walk as it goes on from where it stands if there is more code. -/
def resume (walk : Walk) (behind : Bytes) : Walk := ⟨walk.position, walk.rest ++ behind, false⟩

/-- Code that goes on reaches further, from wherever the walk stands. -/
theorem Addressable.of_resume (h : (walk.resume behind).Addressable) : walk.Addressable := by
  simp only [Addressable, resume, List.length_append] at h ⊢
  omega

/-! ### One call -/

/-- The next instruction is the same one with more code behind it. -/
theorem next?_resume_of_ok (h : walk.next? pool = some (.ok instruction, later))
    (hwhole : (walk.resume behind).Addressable) :
    (walk.resume behind).next? pool = some (.ok instruction, later.resume behind) := by
  have hsteps := steps_of_next? hwhole.of_resume h
  obtain ⟨bytes, hwrites, hrest⟩ := hsteps.exists_bytes
  have hsize := Instruction.length_of_writes hsteps.wellFormed hwrites
  have haddress := hsteps.toNat_address hwhole.of_resume
  rw [resume, hrest, List.append_assoc] at hwhole ⊢
  rw [next?_of_writes hwhole haddress hsteps.wellFormed hwrites, hsize, ← hsteps.length_eq,
    ← hsteps.position_eq]
  rfl

/-- A cause of failure stays the same with more code behind it, if it is not that there is too
little. -/
theorem next?_resume_of_error (h : walk.next? pool = some (.error cause, later))
    (hshort : cause.isShort = false) (behind : Bytes) :
    (walk.resume behind).next? pool
      = some (.error cause, { walk.resume behind with failed := true }) := by
  unfold next? at h
  split at h
  next => cases h
  next hover =>
    split at h
    next => cases h
    next refusal hrefusal =>
      cases h
      have hlonger : (Instruction.read pool (walk.resume behind).address
          (walk.rest ++ behind)).outcome = .error cause := by
        change (Instruction.read pool walk.address (walk.rest ++ behind)).outcome = .error cause
        rcases Instruction.isLocal_read pool walk.address walk.rest behind with
          ⟨short, houtcome, htrue⟩ | hlonger
        · rw [hrefusal] at houtcome
          cases houtcome
          rw [hshort] at htrue
          cases htrue
        · rw [hlonger]
          exact Reading.outcome_followedBy_eq_error_iff.mpr hrefusal
      have hne : ¬ ((walk.resume behind).failed = true ∨ (walk.resume behind).rest = []) := by
        rintro (hfailed | hnil)
        · cases hfailed
        · exact hover (.inr (List.append_eq_nil_iff.mp hnil).1)
      have hread : (Instruction.read pool (walk.resume behind).address
          (walk.resume behind).rest).outcome = .error cause := hlonger
      rw [next?, if_neg hne]
      simp only [hread]

/-- Code that is too short for an instruction cuts it off at the place where the walk stands. -/
theorem eq_truncated_of_isShort (h : walk.next? pool = some (.error cause, later))
    (hshort : cause.isShort = true) :
    ∃ opcode, cause = .truncatedInstruction walk.address opcode := by
  have haddress := (step_error h).1
  cases cause with
  | truncatedInstruction found opcode =>
    obtain rfl : found = walk.address := Option.some.inj haddress
    exact ⟨opcode, rfl⟩
  | endOfInput wanted => cases haddress
  | _ => cases hshort

/-! ### All calls -/

/-- A run takes the step that its walk takes. -/
theorem Runs.of_next?_ok (h : Runs pool walk whole failure stop)
    (hnext : walk.next? pool = some (.ok instruction, later)) :
    ∃ others, whole = instruction :: others ∧ Runs pool later others failure stop := by
  cases h with
  | finish hnil =>
    rw [next?, if_pos (.inr hnil)] at hnext
    cases hnext
  | refuse hrefused =>
    rw [hrefused] at hnext
    cases hnext
  | step hstep hruns =>
    rw [hstep] at hnext
    cases hnext
    exact ⟨_, rfl, hruns⟩

theorem Runs.of_next?_error (h : Runs pool walk whole failure stop)
    (hnext : walk.next? pool = some (.error cause, later)) :
    whole = [] ∧ failure = some cause := by
  cases h with
  | finish hnil =>
    rw [next?, if_pos (.inr hnil)] at hnext
    cases hnext
  | refuse hrefused =>
    rw [hrefused] at hnext
    cases hnext
    exact ⟨rfl, rfl⟩
  | step hstep =>
    rw [hstep] at hnext
    cases hnext

/-- The last call of a run that fails answers the cause. -/
theorem Runs.exists_refused (h : Runs pool walk instructions (some cause) stop) :
    ∃ last : Walk, last.next? pool = some (.error cause, stop) := by
  generalize hfailure : some cause = failure at h
  induction h with
  | finish => cases hfailure
  | refuse hnext =>
    cases hfailure
    exact ⟨_, hnext⟩
  | step _ _ ih => exact ih hfailure

/-- A walk stops where it starts or where an instruction ends. -/
theorem Runs.stop_boundary (h : Runs pool walk instructions failure stop)
    (hwalk : walk.Addressable) : stop.position = walk.position
      ∨ ∃ instruction ∈ instructions, instruction.nextAddress.toNat = stop.position := by
  induction h, hwalk using Runs.stepInduction with
  | finish => exact .inl rfl
  | refuse hnext =>
    rw [(step_error hnext).2]
    exact .inl rfl
  | @step _ _ _ first _ _ _ _ hwalk hsteps ih =>
    rcases ih with hstop | ⟨last, hmem, hlast⟩
    · exact .inr ⟨first, List.mem_cons_self,
        (hsteps.toNat_nextAddress hwalk).1.trans hstop.symm⟩
    · exact .inr ⟨last, List.mem_cons_of_mem _ hmem, hlast⟩

/-- A walk never goes back. -/
theorem Runs.position_le_stop (h : Runs pool walk instructions failure stop)
    (hwalk : walk.Addressable) : walk.position ≤ stop.position := by
  rcases h.stop_boundary hwalk with hstop | ⟨last, hmem, hlast⟩
  · exact Nat.le_of_eq hstop.symm
  · have hle := h.position_le hwalk hmem
    have hsum := (h.length_of_mem hwalk hmem).2
    omega

/-- No instruction ends behind the place where the walk stops. -/
theorem Runs.nextAddress_le_stop (h : Runs pool walk instructions failure stop)
    (hwalk : walk.Addressable) (hmem : instruction ∈ instructions) :
    instruction.nextAddress.toNat ≤ stop.position := by
  induction h, hwalk using Runs.stepInduction with
  | finish | refuse => exact absurd hmem List.not_mem_nil
  | step _ hruns hwalk hsteps ih =>
    rcases List.mem_cons.mp hmem with rfl | hmem
    · rw [(hsteps.toNat_nextAddress hwalk).1]
      exact hruns.position_le_stop (hsteps.addressable hwalk)
    · exact ih hmem

/-- With more code the same instructions come first, and the walk goes on where it stopped. -/
theorem Runs.resume (h : Runs pool walk instructions failure stop)
    (hwalk : (walk.resume behind).Addressable)
    (hwhole : Runs pool (walk.resume behind) whole wholeFailure wholeStop) :
    ∃ more, whole = instructions ++ more ∧ (stop.resume behind).Addressable
      ∧ Runs pool (stop.resume behind) more wholeFailure wholeStop := by
  induction h generalizing whole with
  | finish => exact ⟨whole, rfl, hwalk, hwhole⟩
  | refuse hnext =>
    rw [(step_error hnext).2]
    exact ⟨whole, rfl, hwalk, hwhole⟩
  | step hnext _ ih =>
    have hlonger := next?_resume_of_ok hnext hwalk
    have hsteps := steps_of_next? hwalk hlonger
    obtain ⟨others, rfl, hothers⟩ := hwhole.of_next?_ok hlonger
    obtain ⟨more, rfl, hmore⟩ := ih (hsteps.addressable hwalk) hothers
    exact ⟨more, rfl, hmore⟩

/-- An instruction that only the longer code has at a place reaches past the shorter one. -/
theorem lt_nextAddress_of_refused (h : walk.next? pool = some (.error cause, stop))
    (hwhole : (walk.resume behind).Addressable)
    (hsteps : (walk.resume behind).Steps pool instruction later) :
    walk.position + walk.rest.length < instruction.nextAddress.toNat := by
  by_contra hle
  have hfailed : walk.failed = false := by
    by_contra hover
    rw [next?, if_pos (.inl (Bool.not_eq_false _ ▸ hover))] at h
    cases h
  obtain ⟨bytes, hwrites, hrest⟩ := hsteps.exists_bytes
  have hlength := Instruction.length_of_writes hsteps.wellFormed hwrites
  have hstart := hsteps.toNat_address hwhole
  have hfits : bytes.length ≤ walk.rest.length := by
    rw [(hsteps.toNat_nextAddress hwhole).2, hstart, hsteps.length_eq, ← hlength] at hle
    simp only [Walk.resume] at hle
    omega
  -- The bytes of the instruction are all there, so it would have been found in the shorter code.
  obtain ⟨left, hleft⟩ := List.prefix_of_prefix_length_le ⟨later.rest, hrest.symm⟩
    (List.prefix_append walk.rest behind) hfits
  have hwalk : walk = ⟨walk.position, bytes ++ left, false⟩ := by
    rw [hleft, ← hfailed]
  have haddressable := hwhole.of_resume
  rw [hwalk] at h haddressable
  rw [next?_of_writes haddressable hstart hsteps.wellFormed hwrites] at h
  cases h

end Walk

/-! ## Code that is cut -/

section Cut

variable {code behind : Bytes} {more : List Instruction} {stop : Walk}

theorem IsCodeArray.of_append (h : IsCodeArray (code ++ behind)) : IsCodeArray code := by
  rw [IsCodeArray, List.length_append] at h
  exact Nat.lt_of_le_of_lt (Nat.le_add_right _ _) h

/-- With more code the walk goes on behind the instructions found in the shorter one. -/
theorem exists_more (pool : Pool) (hcode : IsCodeArray (code ++ behind)) : ∃ more,
    (disassemble pool (code ++ behind)).instructions = (disassemble pool code).instructions ++ more
      ∧ ((disassemble pool code).stop.resume behind).Addressable
      ∧ ((disassemble pool code).stop.resume behind).Runs pool more
        (disassemble pool (code ++ behind)).failure (disassemble pool (code ++ behind)).stop :=
  (runs_disassemble pool hcode.of_append).resume (Walk.addressable_start hcode)
    (runs_disassemble pool hcode)

/-- A failure for any other reason than that an instruction is cut off ends the longer walk, too. -/
theorem more_eq_nil_of_failure (hcode : IsCodeArray code) {cause : Error} {failure : Option Error}
    (hcause : (disassemble pool code).failure = some cause)
    (hne : ∀ address opcode, cause ≠ .truncatedInstruction address opcode)
    (hmore : ((disassemble pool code).stop.resume behind).Runs pool more failure stop) :
    more = [] ∧ failure = some cause := by
  have hruns := runs_disassemble pool hcode
  rw [hcause] at hruns
  obtain ⟨last, hlast⟩ := hruns.exists_refused
  rw [(Walk.step_error hlast).2] at hmore
  have hfirm : cause.isShort = false := by
    by_contra hshort
    obtain ⟨opcode, heq⟩ := Walk.eq_truncated_of_isShort hlast (Bool.not_eq_false _ ▸ hshort)
    exact hne last.address opcode heq
  exact hmore.of_next?_error (Walk.next?_resume_of_error hlast hfirm behind)

/-- If the shorter code has a failure and the longer one has none, then the next instruction is cut
off, and the others start behind it. -/
theorem exists_cut (hcode : IsCodeArray code) {cause : Error}
    (hcause : (disassemble pool code).failure = some cause)
    (hwhole : ((disassemble pool code).stop.resume behind).Addressable)
    (hmore : ((disassemble pool code).stop.resume behind).Runs pool more none stop) :
    ∃ cut others opcode, more = cut :: others
      ∧ cause = .truncatedInstruction cut.address opcode
      ∧ cut.address.toNat = (disassemble pool code).stop.position
      ∧ cut.address.toNat < code.length ∧ code.length < cut.nextAddress.toNat
      ∧ ∀ other ∈ others, cut.nextAddress.toNat ≤ other.address.toNat := by
  have hruns := runs_disassemble pool hcode
  have hend := hruns.stop_end (Walk.addressable_start hcode)
  rw [hcause] at hruns
  obtain ⟨last, hlast⟩ := hruns.exists_refused
  rw [(Walk.step_error hlast).2] at hmore hend hwhole ⊢
  change (last.resume behind).Addressable at hwhole
  change (last.resume behind).Runs pool more none stop at hmore
  change last.position + last.rest.length = 0 + code.length at hend
  have hne : last.rest ≠ [] := by
    intro hnil
    rw [Walk.next?, if_pos (.inr hnil)] at hlast
    cases hlast
  cases hmore with
  | finish hnil => exact absurd (List.append_eq_nil_iff.mp hnil).1 hne
  | @step _ later _ cut others _ hnext hothers =>
    have hsteps := Walk.steps_of_next? hwhole hnext
    have hlt := Walk.lt_nextAddress_of_refused hlast hwhole hsteps
    have hpos := List.length_pos_iff.mpr hne
    have hstart : cut.address.toNat = last.position := hsteps.toNat_address hwhole
    have hshort : cause.isShort = true := by
      by_contra hfirm
      rw [Walk.next?_resume_of_error hlast (Bool.not_eq_true _ ▸ hfirm)] at hnext
      cases hnext
    obtain ⟨opcode, rfl⟩ := Walk.eq_truncated_of_isShort hlast hshort
    refine ⟨cut, others, opcode, rfl, by rw [hsteps.address_eq]; rfl, hstart, by omega, by omega,
      ?_⟩
    intro other hmem
    rw [(hsteps.toNat_nextAddress hwhole).1]
    exact hothers.position_le (hsteps.addressable hwhole) hmem

/-- Of code that can be read to its end, all that is not found when it is cut reaches past the
cut. -/
theorem forall_more_lt (hcode : IsCodeArray code)
    (hwhole : ((disassemble pool code).stop.resume behind).Addressable)
    (hmore : ((disassemble pool code).stop.resume behind).Runs pool more none stop) :
    ∀ instruction ∈ more, code.length < instruction.nextAddress.toNat := by
  intro instruction hmem
  obtain ⟨hpos, hsum⟩ := hmore.length_of_mem hwhole hmem
  rcases hfailure : (disassemble pool code).failure with _ | cause
  · have hruns := runs_disassemble pool hcode
    rw [hfailure] at hruns
    have hend : (disassemble pool code).stop.position = code.length := by
      rw [hruns.stop_position (Walk.addressable_start hcode)]
      exact Nat.zero_add _
    have hle := hmore.position_le hwhole hmem
    simp only [Walk.resume] at hle
    omega
  · obtain ⟨cut, others, opcode, rfl, -, -, -, hlt, hbehind⟩ :=
      exists_cut hcode hfailure hwhole hmore
    rcases List.mem_cons.mp hmem with rfl | hmem
    · exact hlt
    · have hle := hbehind instruction hmem
      omega

end Cut

/-- **Decoding is local.** The instructions found in code come first in whatever goes on from it. A
failure stays the same behind the same instructions, unless it is that an instruction is cut off.
And if the longer code can be read to its end, then exactly the instructions that lie wholly inside
the shorter one are found there; behind them it ends, or the next instruction is cut off and this
is the failure. -/
theorem disassemble_append (pool : Pool) (code behind : Bytes)
    (hcode : IsCodeArray (code ++ behind)) :
    let found := disassemble pool code
    let whole := disassemble pool (code ++ behind)
    found.instructions <+: whole.instructions
      ∧ (∀ cause, found.failure = some cause →
        (∀ address opcode, cause ≠ .truncatedInstruction address opcode) →
        whole.instructions = found.instructions ∧ whole.failure = some cause)
      ∧ (whole.failure = none →
        found.instructions = whole.instructions.filter
            (fun instruction => instruction.nextAddress.toNat ≤ code.length)
          ∧ (whole.HasBoundary code.length → found.failure = none)
          ∧ (¬ whole.HasBoundary code.length → ∃ cut ∈ whole.instructions, ∃ opcode,
            cut.address.toNat < code.length ∧ code.length < cut.nextAddress.toNat
              ∧ found.failure = some (.truncatedInstruction cut.address opcode))) := by
  intro found whole
  have hwalk : (Walk.start code).Addressable := Walk.addressable_start hcode.of_append
  have hruns : (Walk.start code).Runs pool found.instructions found.failure found.stop :=
    runs_disassemble pool hcode.of_append
  obtain ⟨more, hmore, hwhole, hrest⟩ : ∃ more, whole.instructions = found.instructions ++ more
      ∧ (found.stop.resume behind).Addressable
      ∧ (found.stop.resume behind).Runs pool more whole.failure whole.stop :=
    exists_more pool hcode
  have hend : (Walk.start code).position + (Walk.start code).rest.length = code.length :=
    Nat.zero_add _
  refine ⟨⟨more, hmore.symm⟩, fun cause hcause hne => ?_, fun hnone => ?_⟩
  · obtain ⟨hnil, hfailure⟩ := more_eq_nil_of_failure hcode.of_append hcause hne hrest
    exact ⟨by rw [hmore, hnil, List.append_nil], hfailure⟩
  rw [hnone] at hrest
  have hbeyond := forall_more_lt hcode.of_append hwhole hrest
  refine ⟨?_, fun hboundary => ?_, fun hnot => ?_⟩
  · have hfound : found.instructions.filter
        (fun instruction => instruction.nextAddress.toNat ≤ code.length) = found.instructions :=
      List.filter_eq_self.mpr fun instruction hmem =>
        decide_eq_true (hend ▸ hruns.nextAddress_le hwalk hmem)
    have hleft : more.filter (fun instruction => instruction.nextAddress.toNat ≤ code.length)
        = [] :=
      List.filter_eq_nil_iff.mpr fun instruction hmem hle =>
        absurd (of_decide_eq_true hle) (Nat.not_le.mpr (hbeyond instruction hmem))
    rw [hmore, List.filter_append, hfound, hleft, List.append_nil]
  · rcases hfailure : found.failure with _ | cause
    · rfl
    -- No instruction ends where the shorter code does if one is cut off there.
    obtain ⟨cut, -, -, -, -, hstop, hlt, -⟩ := exists_cut hcode.of_append hfailure hwhole hrest
    rcases hboundary with hzero | ⟨last, hmem, hlast⟩
    · omega
    rw [hmore] at hmem
    rcases List.mem_append.mp hmem with hmem | hmem
    · have hle : last.nextAddress.toNat ≤ found.stop.position :=
        hruns.nextAddress_le_stop hwalk hmem
      change cut.address.toNat = found.stop.position at hstop
      omega
    · have hgt := hbeyond last hmem
      omega
  · rcases hfailure : found.failure with _ | cause
    · rw [hfailure] at hruns
      refine absurd ?_ hnot
      rw [← hend, ← hruns.stop_position hwalk]
      refine (hruns.stop_boundary hwalk).imp id ?_
      rintro ⟨last, hmem, hlast⟩
      exact ⟨last, hmore ▸ List.mem_append_left more hmem, hlast⟩
    · obtain ⟨cut, others, opcode, rfl, rfl, -, hlt, hgt, -⟩ :=
        exists_cut hcode.of_append hfailure hwhole hrest
      refine ⟨cut, hmore ▸ List.mem_append_right _ List.mem_cons_self, opcode, hlt, hgt, rfl⟩

/-- A switch behind an instruction of one byte, cut in its padding. -/
theorem cut_off_in_padding :
    let code : Bytes := [0x00, 0xaa, 0x55]
    let behind : Bytes := [0x55, 0, 0, 0, 7, 0, 0, 0, 1, 0, 0, 0, 1, 0, 0, 0, 7, 0xb1]
    let found := disassemble (.empty ⟨0⟩) code
    let whole := disassemble (.empty ⟨0⟩) (code ++ behind)
    IsCodeArray (code ++ behind) ∧ whole.failure = none
      ∧ found.instructions
        = whole.instructions.filter (fun instruction => instruction.nextAddress.toNat ≤ 3)
      ∧ ∃ cut ∈ whole.instructions, ∃ opcode,
        cut.address.toNat < 3 ∧ 3 < cut.nextAddress.toNat
          ∧ found.failure = some (.truncatedInstruction cut.address opcode) := by
  intro code behind found whole
  have hcode : IsCodeArray (code ++ behind) := by decide
  have hwhole : whole = ⟨[⟨0, ⟨0x00⟩, false, .nothing⟩, ⟨1, ⟨0xaa⟩, false, .tableSwitch 7 1 1 [7]⟩,
      ⟨20, ⟨0xb1⟩, false, .nothing⟩], none, ⟨21, [], false⟩⟩ := by
    decide
  have hnone : whole.failure = none := by rw [hwhole]
  have hinside : ¬ whole.HasBoundary 3 := by
    rw [hwhole, Disassembly.HasBoundary]
    decide
  obtain ⟨hfilter, -, hcut⟩ := (disassemble_append (.empty ⟨0⟩) code behind hcode).2.2 hnone
  exact ⟨hcode, hnone, hfilter, hcut hinside⟩

end ClassFormat
