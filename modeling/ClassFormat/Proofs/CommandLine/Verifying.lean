import ClassFormat.CommandLine.Report
import ClassFormat.Proofs.Class.Delimiting
import ClassFormat.Proofs.Class.Rereading
import ClassFormat.Proofs.Class.Verbosity
/-!
# Verdicts are right

A file gets the verdict that it differs only if something was lost when it was read. What is written
then is a class file again, which reading shows (`ClassFile.exists_reread`), and a class file is
never the beginning of another one (`ClassFile.eq_of_isPrefix`). So neither the file nor what is
written ends where the comparison stops: both have a byte there, and these are different.

Verifying a number of files counts those that are not written back as the same bytes.
-/

namespace ClassFormat

variable {tag : PoolTag} {verbosity : Verbosity} {bytes others encoded : Bytes}
  {file parsed : ClassFile} {notices : List Notice} {offset expected actual : Nat}

/-! ## What is written of a class that was read -/

namespace ClassFile

/-- The code of every method can be read to its end. -/
def CodeDecodes (file : ClassFile) : Prop :=
  ∀ method ∈ file.methods, ∀ code, method.code? = some code →
    (disassemble file.constants code.bytes).failure = none

/-- If other bytes are written than were read, something was left out, and neither file is the
beginning of the other. -/
theorem lost_of_encode_ne (h : parse tag verbosity bytes = ⟨.ok file, notices⟩)
    (hencode : file.encode = .ok encoded) (hne : encoded ≠ bytes) :
    (∃ notice ∈ notices, notice.IsDrop) ∧ ¬ bytes <+: encoded ∧ ¬ encoded <+: bytes := by
  obtain ⟨hreachable, hsound, hrewritten⟩ := rewritten_of_parse h
  obtain ⟨_, _, _, again, -, -, -, hagain⟩ := exists_reread hreachable hsound hencode tag
  obtain ⟨noted, hquiet⟩ := exists_parse_quiet h
  refine ⟨?_, fun hfront => ?_, fun hfront => ?_⟩
  · by_contra hnone
    by_cases hfits : file.CodeFits
    · obtain ⟨written, hwritten, -, hiff⟩ := hrewritten.of_fits hfits
      obtain rfl : encoded = written := Except.ok.inj (hencode.symm.trans hwritten)
      exact hne (hiff.mpr fun notice hmem hdrop => hnone ⟨notice, hmem, hdrop⟩)
    · obtain ⟨length, -, herror⟩ := hrewritten.of_not_fits hfits
      rw [hencode] at herror
      cases herror
  · exact hne (eq_of_isPrefix hquiet hagain hfront).symm
  · exact hne (eq_of_isPrefix hagain hquiet hfront)

/-- If something was left out and all instructions fit, other bytes are written. -/
theorem exists_encode_ne (h : parse tag verbosity bytes = ⟨.ok file, notices⟩)
    (hfits : file.CodeFits) (hlost : ∃ notice ∈ notices, notice.IsDrop) :
    ∃ encoded, file.encode = .ok encoded ∧ encoded ≠ bytes := by
  obtain ⟨written, hwritten, -, hiff⟩ := (rewritten_of_parse h).2.2.of_fits hfits
  obtain ⟨notice, hmem, hdrop⟩ := hlost
  exact ⟨written, hwritten, fun heq => hiff.mp heq notice hmem hdrop⟩

end ClassFile

namespace CommandLine

/-! ## The first difference -/

/-- Two files agree up to an offset, and both have a byte there, but not the same. -/
structure FirstDifference (bytes others : Bytes) (offset : Nat) : Prop where
  lt_left : offset < bytes.length
  lt_right : offset < others.length
  agree : ∀ k < offset, bytes[k]? = others[k]?
  differ : bytes[offset]? ≠ others[offset]?

/-- An equal byte in front moves the first difference by one. -/
theorem FirstDifference.cons (h : FirstDifference bytes others offset) (byte : UInt8) :
    FirstDifference (byte :: bytes) (byte :: others) (offset + 1) where
  lt_left := Nat.succ_lt_succ h.lt_left
  lt_right := Nat.succ_lt_succ h.lt_right
  agree k hk := by
    cases k with
    | zero => rfl
    | succ k => exact h.agree k (Nat.lt_of_succ_lt_succ hk)
  differ := h.differ

/-- Where neither file is the beginning of the other, the equal bytes in front end at a
difference. -/
theorem exists_firstDifference (before : Nat) (hleft : ¬ bytes <+: others)
    (hright : ¬ others <+: bytes) : ∃ offset, commonLength before bytes others = before + offset
      ∧ FirstDifference bytes others offset := by
  induction bytes generalizing before others with
  | nil => exact absurd List.nil_prefix hleft
  | cons byte bytes ih =>
    cases others with
    | nil => exact absurd List.nil_prefix hright
    | cons other others =>
      rw [commonLength]
      by_cases heq : byte = other
      · subst heq
        obtain ⟨offset, hlength, hfirst⟩ := ih (before + 1)
          (fun hfront => hleft (List.prefix_cons_inj byte |>.mpr hfront))
          (fun hfront => hright (List.prefix_cons_inj byte |>.mpr hfront))
        exact ⟨offset + 1, by rw [if_pos rfl, hlength]; omega, hfirst.cons byte⟩
      · rw [if_neg heq]
        exact ⟨0, rfl, Nat.succ_pos _, Nat.succ_pos _, nofun, fun hsame =>
          heq (Option.some.inj hsame)⟩

/-! ## Verdicts on one file -/

section

variable {path : String} {pool : Pool} {log : List LogLine} {methods : List Method}

/-- Handlers can be checked exactly if the code can be read to its end. -/
theorem exists_checkHandlers_iff {method : Method} {code : Code} :
    (∃ lines, checkHandlers path pool method code = .ok lines)
      ↔ (disassemble pool code.bytes).failure = none := by
  unfold checkHandlers Flow.instructionStarts Disassembly.complete
  cases (disassemble pool code.bytes).failure with
  | none => exact iff_of_true ⟨_, rfl⟩ rfl
  | some cause =>
    refine iff_of_false (fun hlines => ?_) nofun
    obtain ⟨lines, hnone⟩ := hlines
    cases hnone

/-- All handlers are checked exactly if all code can be read to its end. -/
theorem checkMethods_eq_none_iff : (checkMethods path pool log methods).1 = none
    ↔ ∀ method ∈ methods, ∀ code, method.code? = some code →
      (disassemble pool code.bytes).failure = none := by
  induction methods generalizing log with
  | nil => exact iff_of_true rfl fun _ hmem => absurd hmem List.not_mem_nil
  | cons method others ih =>
    rw [checkMethods, List.forall_mem_cons]
    cases hcode : method.code? with
    | none =>
      refine ih.trans (iff_and_self.mpr fun _ => ?_)
      intro code hnone
      cases hnone
    | some code =>
      have hfirst : (∃ lines, checkHandlers path pool method code = .ok lines)
          ↔ ∀ found, some code = some found → (disassemble pool found.bytes).failure = none := by
        rw [exists_checkHandlers_iff]
        simp
      rw [← hfirst]
      dsimp only
      cases checkHandlers path pool method code with
      | error cause =>
        refine iff_of_false nofun fun hall => ?_
        obtain ⟨lines, hnone⟩ := hall.1
        cases hnone
      | ok lines => exact ih.trans (iff_and_self.mpr fun _ => ⟨lines, rfl⟩)

/-- Lines that are in the log stay there. -/
theorem mem_checkMethods {line : LogLine} (h : line ∈ log) :
    line ∈ (checkMethods path pool log methods).2 := by
  induction methods generalizing log with
  | nil => exact h
  | cons method others ih =>
    rw [checkMethods]
    split
    · exact ih h
    · split
      · exact h
      · exact ih (List.mem_append_right _ h)

/-- What was left out is warned of, however little is told. -/
theorem mem_logNotices {notice : Notice} (hmem : notice ∈ notices) (hdrop : notice.IsDrop) :
    ⟨.warning, notice.message⟩ ∈ logNotices verbosity notices := by
  have hwarning : notice.isWarning = true := by
    cases hdrop <;> rfl
  refine List.mem_map.mpr ⟨notice, List.mem_filter.mpr ⟨hmem, ?_⟩, ?_⟩
  · rw [Notice.isTold, hwarning, Bool.true_or]
  · rw [hwarning]
    rfl

/-- The verdict on a file that is parsed. -/
theorem verdict_of_parse (h : ClassFile.parse tag verbosity bytes = ⟨.ok parsed, notices⟩) :
    verdict tag verbosity ⟨path, .ok bytes⟩
      = ((checkMethods path parsed.constants (logNotices verbosity notices).reverse
            parsed.methods).1.elim (compareBytes bytes parsed.encode) .failed,
        (checkMethods path parsed.constants (logNotices verbosity notices).reverse
          parsed.methods).2) := by
  simp only [verdict, h]
  rcases checkMethods path parsed.constants (logNotices verbosity notices).reverse
    parsed.methods with ⟨_ | cause, log⟩ <;> rfl

/-- Bytes are told apart exactly if something else was written. The offset is the number of bytes
that both have in common at their start. -/
theorem compareBytes_eq_different_iff {written : Except Error Bytes} :
    compareBytes bytes written = .different offset expected actual
      ↔ ∃ encoded, written = .ok encoded ∧ encoded ≠ bytes ∧ offset = commonLength 0 bytes encoded
        ∧ expected = bytes.length ∧ actual = encoded.length := by
  cases written with
  | error cause => simp [compareBytes]
  | ok encoded =>
    by_cases heq : encoded = bytes
    · simp [compareBytes, heq]
    · rw [compareBytes, if_neg heq, Verdict.different.injEq]
      simp only [Except.ok.injEq, exists_eq_left', ne_eq, heq, not_false_eq_true, true_and]
      rw [@eq_comm _ offset, @eq_comm _ expected, @eq_comm _ actual]

/-- A file gets the verdict that it differs exactly if its class can be read and checked and is
written as other bytes. -/
theorem verdict_eq_different_iff :
    (verdict tag verbosity ⟨path, .ok bytes⟩).1 = .different offset expected actual
      ↔ ∃ parsed notices encoded,
        ClassFile.parse tag verbosity bytes = ⟨.ok parsed, notices⟩ ∧ parsed.CodeDecodes
        ∧ parsed.encode = .ok encoded ∧ encoded ≠ bytes
        ∧ offset = commonLength 0 bytes encoded ∧ expected = bytes.length
        ∧ actual = encoded.length := by
  rcases hparse : ClassFile.parse tag verbosity bytes with ⟨cause | parsed, notices⟩
  · simp [verdict, hparse]
  rw [verdict_of_parse hparse]
  cases hmethods : (checkMethods path parsed.constants (logNotices verbosity notices).reverse
    parsed.methods).1 with
  | some cause =>
    refine iff_of_false nofun ?_
    rintro ⟨found, noted, encoded, hfound, hdecodes, -⟩
    cases hfound
    rw [checkMethods_eq_none_iff.mpr hdecodes] at hmethods
    cases hmethods
  | none =>
    rw [Option.elim, compareBytes_eq_different_iff]
    constructor
    · rintro ⟨encoded, hencode⟩
      exact ⟨parsed, notices, encoded, rfl, checkMethods_eq_none_iff.mp hmethods, hencode⟩
    · rintro ⟨found, noted, encoded, hfound, -, hencode⟩
      cases hfound
      exact ⟨encoded, hencode⟩

end

/-! ## Verdicts on all files -/

section

variable {path : String} {numbered : FoundFile × Nat} {verification : Verification}

/-- A file that is not written back as the same bytes is one failure more. -/
theorem failures_verifyFile : (verifyFile verbosity verification numbered).failures
    = verification.failures
      + if (verdict ⟨numbered.2⟩ verbosity numbered.1).1 ≠ .same then 1 else 0 := by
  rcases hverdict : verdict ⟨numbered.2⟩ verbosity numbered.1 with ⟨_ | _ | _, log⟩ <;>
    simp [verifyFile, hverdict]

/-- Every file that is not written back as the same bytes is a failure. -/
theorem failures_foldl_verifyFile (files : List (FoundFile × Nat)) :
    (files.foldl (verifyFile verbosity) verification).failures = verification.failures
      + files.countP fun numbered => (verdict ⟨numbered.2⟩ verbosity numbered.1).1 ≠ .same := by
  induction files generalizing verification with
  | nil => rfl
  | cons numbered files ih =>
    rw [List.foldl_cons, ih, failures_verifyFile, List.countP_cons]
    simp only [decide_eq_true_iff]
    omega

end

/-- **Verifying is right.** However much is told, a file gets the verdict that it differs only if
something in it was left out when it was read, which is warned of; the lengths are those of the file
and of what its class is written as, and the offset is that of their first difference, inside both.
A file gets this verdict whenever it is parsed, the code of its methods can be read to its end, all
instructions fit the format, and something was left out. And the failures over all files are those
that are not written back as the same bytes: they decide the exit code, and the last line tells how
many are left. -/
theorem verify_right (verbosity : Verbosity) :
    (∀ tag path bytes offset expected actual,
        (verdict tag verbosity ⟨path, .ok bytes⟩).1 = .different offset expected actual →
        ∃ parsed notices encoded,
          ClassFile.parse tag verbosity bytes = ⟨.ok parsed, notices⟩
          ∧ (∃ notice ∈ notices, notice.IsDrop
            ∧ ⟨.warning, notice.message⟩ ∈ (verdict tag verbosity ⟨path, .ok bytes⟩).2)
          ∧ parsed.encode = .ok encoded ∧ expected = bytes.length ∧ actual = encoded.length
          ∧ FirstDifference bytes encoded offset)
      ∧ (∀ tag path bytes parsed notices,
        ClassFile.parse tag verbosity bytes = ⟨.ok parsed, notices⟩ → parsed.CodeDecodes →
        parsed.CodeFits → (∃ notice ∈ notices, notice.IsDrop) →
        ∃ offset expected actual,
          (verdict tag verbosity ⟨path, .ok bytes⟩).1 = .different offset expected actual)
      ∧ ∀ files : List FoundFile,
        let failures := files.zipIdx.countP fun (file, position) =>
          (verdict ⟨position⟩ verbosity file).1 ≠ .same
        (files.zipIdx.foldl (verifyFile verbosity) ⟨0, [], []⟩).failures = failures
          ∧ ((verify verbosity files).exitCode = 0 ↔ failures = 0)
          ∧ (verify verbosity files).log.getLast?
            = some ⟨.info, s!"{files.length - failures} of {files.length} classes round-trip"⟩ := by
  refine ⟨?_, ?_, ?_⟩
  · intro tag path bytes offset expected actual hdifferent
    obtain ⟨parsed, notices, encoded, hparse, -, hencode, hne, rfl, hexpected, hactual⟩ :=
      verdict_eq_different_iff.mp hdifferent
    obtain ⟨⟨notice, hmem, hdrop⟩, hleft, hright⟩ :=
      ClassFile.lost_of_encode_ne hparse hencode hne
    obtain ⟨offset, hoffset, hfirst⟩ := exists_firstDifference 0 hleft hright
    rw [Nat.zero_add] at hoffset
    have hline : ⟨.warning, notice.message⟩ ∈ (verdict tag verbosity ⟨path, .ok bytes⟩).2 := by
      rw [verdict_of_parse hparse]
      exact mem_checkMethods (List.mem_reverse.mpr (mem_logNotices hmem hdrop))
    exact ⟨parsed, notices, encoded, hparse, ⟨notice, hmem, hdrop, hline⟩, hencode, hexpected,
      hactual, hoffset ▸ hfirst⟩
  · intro tag path bytes parsed notices hparse hdecodes hfits hlost
    obtain ⟨encoded, hencode, hne⟩ := ClassFile.exists_encode_ne hparse hfits hlost
    exact ⟨_, _, _, verdict_eq_different_iff.mpr
      ⟨parsed, notices, encoded, hparse, hdecodes, hencode, hne, rfl, rfl, rfl⟩⟩
  · intro files failures
    have hfailures : (files.zipIdx.foldl (verifyFile verbosity) ⟨0, [], []⟩).failures
        = failures := (failures_foldl_verifyFile files.zipIdx).trans (Nat.zero_add _)
    refine ⟨hfailures, ?_, ?_⟩
    · rw [verify, hfailures]
      split <;> simp [*]
    · rw [verify, hfailures]
      simp

/-- A class with a table of local variables, the only row of which has no name, is not written back
as the same bytes. -/
theorem verify_right_of_unusable_row : ∃ offset actual,
    (verdict ⟨0⟩ .quiet ⟨"A.class", .ok (BigEndian.u32 ClassFile.magic ++ Version.java8.encode
        ++ [0, 4, 1, 0, 1, 65, 7, 0, 1, 1, 0, 18]
        ++ Text.ModifiedUtf8.encode (Text.Utf16.ofString "LocalVariableTable")
        ++ [0, 0, 0, 2, 0, 0, 0, 0, 0, 0, 0, 0, 0, 1, 0, 3, 0, 0, 0, 12, 0, 1]
        ++ [0, 0, 0, 0, 0, 0, 0, 0, 0, 7])⟩).1 = .different offset 70 actual ∧ offset < 70 := by
  have hresolves : Pool.Resolves ⟨0⟩
      [.leaf (.utf8 "A"), .classInfo 1, .leaf (.utf8 "LocalVariableTable")]
      [.utf8 "A", .classInfo ⟨⟨⟨0⟩, 0⟩⟩, .utf8 "LocalVariableTable"] := by
    refine ⟨List.forall_mem_cons.mpr ⟨?_, List.forall_mem_cons.mpr
      ⟨trivial, List.forall_mem_singleton.mpr ?_⟩⟩, by decide,
      .cons rfl (.cons rfl (.cons rfl .nil))⟩
    · show (Text.ModifiedUtf8.encode (Text.Utf16.ofString "A")).length < 2 ^ 16
      decide
    · show (Text.ModifiedUtf8.encode (Text.Utf16.ofString "LocalVariableTable")).length < 2 ^ 16
      decide
  have hpool : (Pool.read ⟨0⟩).Reads _ _
      ([0, 0, 0, 2, 0, 0, 0, 0, 0, 0, 0, 0, 0, 1, 0, 3, 0, 0, 0, 12, 0, 1]
        ++ [0, 0, 0, 0, 0, 0, 0, 0, 0, 7]) _ :=
    Pool.reads_read_iff.mpr ⟨_, _, hresolves, rfl, rfl, rfl⟩
  have hparts : (ClassFile.readParts (.ofRead ⟨0⟩
        [.utf8 "A", .classInfo ⟨⟨⟨0⟩, 0⟩⟩, .utf8 "LocalVariableTable"])).Reads
      ([0, 0, 0, 2, 0, 0, 0, 0, 0, 0, 0, 0, 0, 1, 0, 3, 0, 0, 0, 12, 0, 1]
        ++ [0, 0, 0, 0, 0, 0, 0, 0, 0, 7])
      (⟨0⟩, ⟨⟨⟨0⟩, 1⟩⟩, none, [], [], [], [⟨⟨⟨⟨0⟩, 2⟩⟩, .localVariables ⟨[]⟩⟩]) []
      [.droppedRow 7 (.invalidConstantIndex 0)] := rfl
  have hparse := ClassFile.parse_of_reads .java8 hpool hparts
  have hfits : ∀ attr ∈ attributesWithNested [⟨⟨⟨⟨0⟩, 2⟩⟩, .localVariables ⟨[]⟩⟩],
      attr.payload.CodeFits := by
    intro attr hattr body hbody
    obtain rfl := List.mem_singleton.mp hattr
    cases hbody
  obtain ⟨hforward, hconverse, -⟩ := verify_right .quiet
  obtain ⟨offset, expected, actual, hdifferent⟩ := hconverse ⟨0⟩ "A.class" _ _ _ hparse
    (fun _ hmem => nomatch hmem) hfits
    ⟨_, List.mem_append_right _ (List.mem_singleton_self _), .row 7 _⟩
  obtain ⟨_, _, _, _, -, -, hexpected, -, hfirst⟩ := hforward _ _ _ _ _ _ hdifferent
  obtain rfl : expected = 70 := hexpected
  exact ⟨offset, actual, hdifferent, hfirst.lt_left⟩

end CommandLine

end ClassFormat
