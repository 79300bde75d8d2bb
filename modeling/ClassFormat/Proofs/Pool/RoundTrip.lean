import ClassFormat.Proofs.Pool.Rereading
/-!
# Writing a pool and reading it again

A pool is refused for two reasons only, of which the first is found first: its constants take too
many indices, or a text takes too many bytes. No constant is foreign to the pool that has it, since
every operation checks the references of what it adds.

What is written is read again if all references are of the kinds they have to be. Handles of a kind
are, as only operations that check a constant or add one of that kind give them out. But a method
handle may be added with a reference of any kind, so for these it has to be asked.
-/

namespace ClassFormat

open Layout (totalWidth)
open Text

namespace Constant

variable {indices : Indices} {constant : Constant} {cause : Error}

/-- Number of bytes that the text of a constant takes. -/
def textLength : Constant → Nat
  | utf8 text => (ModifiedUtf8.encode (Utf16.ofString text)).length
  | utf16 units => (ModifiedUtf8.encode units).length
  | _ => 0

/-- A constant has a raw form once its references have indices, and its text decides whether it is
one that reading makes. -/
theorem exists_toRaw
    (hindex : ∀ id ∈ constant.references, ∃ index, indices.indexOf id = .ok index) :
    ∃ raw, constant.toRaw indices = .ok raw ∧ (raw.Canonical ↔ constant.textLength ≤ 65535) := by
  cases constant with
  | utf8 text => exact ⟨_, rfl, Nat.lt_succ_iff⟩
  | utf16 units => exact ⟨_, rfl, (canonical_ofUnits units).trans Nat.lt_succ_iff⟩
  | integer _ | float _ | long _ | double _ => exact ⟨_, rfl, iff_of_true rfl (Nat.zero_le _)⟩
  | classInfo name | string name | methodType name | moduleInfo name | packageInfo name =>
    obtain ⟨index, hname⟩ := hindex _ (List.mem_singleton_self _)
    refine ⟨_, map_eq_ok_iff.mpr ⟨index, hname, rfl⟩, ?_⟩
    exact iff_of_true trivial (Nat.zero_le _)
  | fieldRef first second | methodRef first second | interfaceMethodRef first second
  | nameAndType first second =>
    obtain ⟨index, hfirst⟩ := hindex _ (List.mem_cons_self ..)
    obtain ⟨other, hsecond⟩ := hindex _ (List.mem_cons_of_mem _ (List.mem_singleton_self _))
    refine ⟨_, bind_eq_ok_iff.mpr ⟨index, hfirst, bind_eq_ok_iff.mpr ⟨other, hsecond, rfl⟩⟩, ?_⟩
    exact iff_of_true trivial (Nat.zero_le _)
  | methodHandle kind reference =>
    obtain ⟨index, hreference⟩ := hindex _ (List.mem_singleton_self _)
    refine ⟨_, map_eq_ok_iff.mpr ⟨index, hreference, rfl⟩, ?_⟩
    exact iff_of_true trivial (Nat.zero_le _)
  | dynamic bootstrap member | invokeDynamic bootstrap member =>
    obtain ⟨index, hmember⟩ := hindex _ (List.mem_singleton_self _)
    refine ⟨_, map_eq_ok_iff.mpr ⟨index, hmember, rfl⟩, ?_⟩
    exact iff_of_true trivial (Nat.zero_le _)

/-- A constant whose references have indices is written unless its text is too long. -/
theorem exists_encode_iff
    (hindex : ∀ id ∈ constant.references, ∃ index, indices.indexOf id = .ok index) :
    (∃ written, constant.encode indices = .ok written) ↔ constant.textLength ≤ 65535 := by
  obtain ⟨raw, hraw, hcanonical⟩ := exists_toRaw hindex
  simp only [encode_eq_ok_iff, hraw, Except.ok.injEq, ← hcanonical]
  constructor
  · rintro ⟨_, _, rfl, h, -⟩
    exact h
  · intro h
    exact ⟨_, raw, rfl, h, rfl⟩

/-- A text that is too long is refused, whatever indices there are. -/
theorem encode_of_long (hlong : 65535 < constant.textLength) :
    constant.encode indices = .error (.stringTooLong constant.textLength) := by
  cases constant with
  | utf8 text => exact bind_eq_error_iff.mpr (.inl (if_neg (Nat.not_lt.mpr hlong)))
  | utf16 units => exact bind_eq_error_iff.mpr (.inl (if_neg (Nat.not_lt.mpr hlong)))
  | _ => exact absurd hlong (Nat.not_lt_zero _)

/-- It is refused for the length of its text, and for nothing else. -/
theorem encode_eq_error_iff
    (hindex : ∀ id ∈ constant.references, ∃ index, indices.indexOf id = .ok index) :
    constant.encode indices = .error cause
      ↔ 65535 < constant.textLength ∧ cause = .stringTooLong constant.textLength := by
  rcases Nat.lt_or_ge 65535 constant.textLength with hlong | hfits
  · rw [encode_of_long hlong, Except.error.injEq, and_iff_right hlong, eq_comm]
  · obtain ⟨written, hwritten⟩ := (exists_encode_iff hindex).mpr hfits
    rw [hwritten]
    exact iff_of_false nofun fun h => absurd h.1 (Nat.not_lt.mpr hfits)

end Constant

namespace Pool

variable {kinds : ConstantTag → Prop} {pool : Pool} {indices : Indices} {cause : Error}

/-! ## When a pool is written -/

/-- Whether a pool has room for its constants and its texts fit. -/
structure Writable (pool : Pool) : Prop where
  room : totalWidth pool.constants ≤ 65534
  texts : ∀ constant ∈ pool.constants, constant.textLength ≤ 65535

/-- Why a pool is refused: the number of indices it takes, or else the length of the first text that
is too long, in the order of the indices. -/
inductive Refused (pool : Pool) : Error → Prop where
  | overflow (hwide : 65534 < totalWidth pool.constants) :
    Refused pool (.poolOverflow (totalWidth pool.constants))
  | tooLong {before behind : List Constant} {constant : Constant}
    (hroom : totalWidth pool.constants ≤ 65534)
    (hranked : pool.rankedConstants = before ++ constant :: behind)
    (hbefore : ∀ other ∈ before, other.textLength ≤ 65535)
    (hlong : 65535 < constant.textLength) : Refused pool (.stringTooLong constant.textLength)

/-- The constants that are written are those of the pool. -/
theorem mem_rankedConstants_iff {constant : Constant} :
    constant ∈ pool.rankedConstants ↔ constant ∈ pool.constants := by
  rw [rankedConstants, List.mem_filterMap]
  constructor
  · rintro ⟨slot, -, hslot⟩
    exact List.mem_of_getElem? hslot
  · intro hconstant
    obtain ⟨k, hget⟩ := List.mem_iff_getElem?.mp hconstant
    refine ⟨⟨⟨pool.tag, k⟩, width constant⟩, mem_ranked_iff.mpr ⟨rfl, ?_⟩, hget⟩
    rw [constants, List.getElem?_map, Array.getElem?_toList, Option.map_eq_some_iff] at hget
    obtain ⟨entry, hentry, rfl⟩ := hget
    exact ⟨entry, hentry, rfl⟩

/-- All references of a pool that was laid out have indices. -/
theorem TypedFor.exists_index (h : pool.TypedFor kinds) (hresolve : pool.resolve = .ok indices)
    {constant : Constant} (hconstant : constant ∈ pool.rankedConstants) :
    ∀ id ∈ constant.references, ∃ index, indices.indexOf id = .ok index := by
  intro id hid
  have howns := h.owns_references (mem_rankedConstants_iff.mp hconstant) id hid
  obtain ⟨index, hindex, -⟩ := h.valid.exists_index hresolve howns
  exact ⟨index, hindex⟩

/-- The constants are written in the order of their indices. -/
theorem Valid.encode_eq (h : pool.Valid) : pool.encode = do
    let indices ← pool.resolve
    let constants ← pool.rankedConstants.mapM (Constant.encode indices)
    return (BigEndian.u16 indices.count ++ constants.flatten, indices) := by
  rw [encode, ← h.toList_constants]
  simp only [List.mapM_map]
  rfl

/-- The first constant with a text that is too long is the one that writing fails at. -/
theorem TypedFor.mapM_encode_error_iff (h : pool.TypedFor kinds)
    (hresolve : pool.resolve = .ok indices) :
    pool.rankedConstants.mapM (Constant.encode indices) = .error cause
      ↔ ∃ before constant behind, pool.rankedConstants = before ++ constant :: behind
        ∧ (∀ other ∈ before, other.textLength ≤ 65535)
        ∧ 65535 < constant.textLength ∧ cause = .stringTooLong constant.textLength := by
  rw [mapM_eq_error_iff]
  refine exists₃_congr fun before constant behind => and_congr_right fun hranked => ?_
  have hmem : ∀ other ∈ before ++ constant :: behind, other ∈ pool.rankedConstants :=
    fun other hother => hranked ▸ hother
  have hconstant := h.exists_index hresolve (hmem constant (by simp))
  rw [Constant.encode_eq_error_iff hconstant]
  refine and_congr_left fun _ => forall₂_congr fun other hother => ?_
  exact Constant.exists_encode_iff
    (h.exists_index hresolve (hmem other (List.mem_append_left _ hother)))

/-- **A pool is refused for the number of its indices, or else for its first text that is too
long.** In particular, it is never refused for a reference. -/
theorem TypedFor.encode_eq_error_iff (h : pool.TypedFor kinds) :
    pool.encode = .error cause ↔ pool.Refused cause := by
  rw [h.valid.encode_eq, bind_eq_error_iff]
  rcases Nat.lt_or_ge 65534 (totalWidth pool.constants) with hwide | hroom
  · rw [h.valid.resolve_eq.2 hwide]
    constructor
    · rintro (hcause | ⟨_, hnone, -⟩)
      · cases hcause
        exact .overflow hwide
      · cases hnone
    · rintro (- | ⟨hroom, -, -, -⟩)
      · exact .inl rfl
      · omega
  · obtain ⟨indices, hresolve, -⟩ := h.valid.resolve_eq.1 hroom
    rw [hresolve]
    constructor
    · rintro (hnone | ⟨_, hsame, hrest⟩)
      · cases hnone
      · cases hsame
        rcases bind_eq_error_iff.mp hrest with hmapM | ⟨_, -, hpure⟩
        · obtain ⟨before, constant, behind, hranked, hbefore, hlong, rfl⟩ :=
            (h.mapM_encode_error_iff hresolve).mp hmapM
          exact .tooLong hroom hranked hbefore hlong
        · cases hpure
    · rintro (hwide | ⟨-, hranked, hbefore, hlong⟩)
      · omega
      · have hmapM := (h.mapM_encode_error_iff hresolve).mpr
          ⟨_, _, _, hranked, hbefore, hlong, rfl⟩
        exact .inr ⟨indices, rfl, bind_eq_error_iff.mpr (.inl hmapM)⟩

/-- A pool is written exactly if its constants have room and its texts fit. -/
theorem TypedFor.exists_encode_iff (h : pool.TypedFor kinds) :
    (∃ written indices, pool.encode = .ok (written, indices)) ↔ pool.Writable := by
  rw [h.valid.encode_eq]
  constructor
  · rintro ⟨written, indices, hencode⟩
    obtain ⟨_, hresolve, hrest⟩ := bind_eq_ok_iff.mp hencode
    obtain ⟨constants, hconstants, -⟩ := bind_eq_ok_iff.mp hrest
    refine ⟨?_, fun constant hconstant => ?_⟩
    · by_contra hwide
      rw [h.valid.resolve_eq.2 (Nat.lt_of_not_le hwide)] at hresolve
      cases hresolve
    · have hmem := mem_rankedConstants_iff.mpr hconstant
      obtain ⟨k, hget⟩ := List.mem_iff_getElem?.mp hmem
      obtain ⟨bytes, -, hbytes⟩ := getElem?_of_forall₂ (mapM_eq_ok_iff.mp hconstants) hget
      exact (Constant.exists_encode_iff (h.exists_index hresolve hmem)).mp ⟨bytes, hbytes⟩
  · intro hwritable
    obtain ⟨indices, hresolve, -⟩ := h.valid.resolve_eq.1 hwritable.room
    have hconstants : ∀ constant ∈ pool.rankedConstants,
        ∃ bytes, constant.encode indices = .ok bytes := fun constant hmem =>
      (Constant.exists_encode_iff (h.exists_index hresolve hmem)).mpr
        (hwritable.texts constant (mem_rankedConstants_iff.mp hmem))
    obtain ⟨written, hwritten⟩ := exists_forall₂ hconstants
    exact ⟨_, indices, bind_eq_ok_iff.mpr
      ⟨indices, hresolve, bind_eq_ok_iff.mpr ⟨written, mapM_eq_ok_iff.mpr hwritten, rfl⟩⟩⟩

/-! ## What is written is read again -/

/-- If handles of a kind are genuine and method handles refer to members as they have to, all
references in a pool lead to constants of the kinds they have to be. -/
theorem TypedFor.typed (h : pool.TypedFor (· ≠ .methodHandle))
    (hhandles : ∀ kind reference, .methodHandle kind reference ∈ pool.constants →
      pool.Leads kind.referenceTags reference) : pool.Typed where
  valid := h.valid
  refersAs constant hconstant := by
    by_cases htag : constant.tag = .methodHandle
    · cases constant
      case methodHandle kind reference => exact (hhandles kind reference hconstant).leadsIf
      all_goals
        rw [Constant.tag] at htag
        exact absurd htag (by decide)
    · exact (h.refersAs constant hconstant).imp fun _ _ _ hleads => (hleads.leads htag).leadsIf

/-- The count is what the bytes begin with. -/
theorem count_eq_of_encode {other : Pool} {later : Indices} {written : Bytes}
    (h : pool.encode = .ok (written, indices)) (hother : other.encode = .ok (written, later)) :
    later.count = indices.count := by
  simp only [encode, bind_eq_ok_iff, pure_eq_ok_iff, Prod.mk.injEq] at h hother
  obtain ⟨_, -, constants, -, hwritten, rfl⟩ := h
  obtain ⟨_, -, others, -, hsame, rfl⟩ := hother
  have hcounts := (List.append_inj (hsame.trans hwritten.symm) (by simp)).1
  exact BigEndian.u16_injective hcounts

/-- Exactly the indices of constants have a raw constant. -/
theorem LaidOut.exists_rawAt_iff (h : pool.LaidOut indices) (htyped : pool.TypedFor kinds)
    {index : UInt16} :
    (∃ raw, pool.rawAt indices index = .ok raw) ↔ ∃ id, pool.idAt index = .ok id := by
  simp only [rawAt, constantAt, bind_eq_ok_iff]
  constructor
  · rintro ⟨raw, constant, ⟨id, hid, -⟩, -⟩
    exact ⟨id, hid⟩
  · rintro ⟨id, hid⟩
    obtain ⟨constant, hconstant⟩ := h.exists_constant (h.idAt_iff.mp hid)
    have hmem : constant ∈ pool.rankedConstants := mem_rankedConstants_iff.mpr
      (List.mem_of_getElem? (constant_eq_ok_iff.mp hconstant).2)
    obtain ⟨raw, hraw, -⟩ := Constant.exists_toRaw (htyped.exists_index h.resolve_eq hmem)
    exact ⟨raw, constant, ⟨id, hid, hconstant⟩, hraw⟩

/-- **A pool that is written is read again.** Let a pool be made empty or read, and then be changed
by operations that were given genuine handles of a kind, and let its method handles refer to
constants that their kinds admit. It is refused for nothing but its size and the length of a text.
Whatever follows the bytes that it is written as, they are read as a pool with the same raw
constants at the same indices, and none elsewhere, which is written as the same bytes. -/
theorem BuiltFor.read_of_encode (h : pool.BuiltFor (· ≠ .methodHandle))
    (hhandles : ∀ kind reference, .methodHandle kind reference ∈ pool.constants →
      pool.Leads kind.referenceTags reference) :
    (∀ cause, pool.encode = .error cause ↔ pool.Refused cause)
    ∧ ((∃ written indices, pool.encode = .ok (written, indices)) ↔ pool.Writable)
    ∧ ∀ written indices, pool.encode = .ok (written, indices) → ∀ tag, ∃ again later notices,
      (∀ rest, (Pool.read tag).Reads (written ++ rest) again rest notices)
      ∧ again.encode = .ok (written, later) ∧ later.count = indices.count
      ∧ ∀ index, again.rawAt later index = pool.rawAt indices index
        ∧ ((∃ id, again.idAt index = .ok id) ↔ ∃ id, pool.idAt index = .ok id)
        ∧ ((∃ raw, pool.rawAt indices index = .ok raw) ↔ ∃ id, pool.idAt index = .ok id) := by
  have htyped := h.typedFor.typed hhandles
  refine ⟨fun cause => htyped.encode_eq_error_iff, htyped.exists_encode_iff, ?_⟩
  intro written indices hencode tag
  obtain ⟨again, later, notices, hmirrors, -, hreads⟩ :=
    exists_reread htyped.valid htyped.sound hencode tag
  -- What was read is written as what was taken, and nothing was left of the bytes alone.
  obtain ⟨-, -, used, found, hused, hlaid, hagain⟩ := rewrites_read (hreads [])
  obtain rfl : written = used := List.append_cancel_right hused
  obtain rfl : found = later :=
    Except.ok.inj (hlaid.resolve_eq.symm.trans hmirrors.after.resolve_eq)
  refine ⟨again, found, notices, hreads, hagain, count_eq_of_encode hencode hagain, ?_⟩
  intro index
  refine ⟨hmirrors.rawAt_eq index, ⟨?_, ?_⟩, hmirrors.before.exists_rawAt_iff htyped⟩
  · rintro ⟨id, hid⟩
    obtain ⟨other, hother⟩ := hmirrors.exists_before hid
    exact ⟨other, hmirrors.before.idAt_iff.mpr hother⟩
  · rintro ⟨id, hid⟩
    obtain ⟨other, -, -, hother, -⟩ := hmirrors.exists_other (hmirrors.before.idAt_iff.mp hid)
    exact ⟨other, hother⟩

/-- A method handle that comes before all that it needs is read again, with anything behind it. -/
theorem read_of_encode_handle : ∃ again later notices,
    again.encode = .ok ([0, 6, 15, 6, 0, 2, 10, 0, 3, 0, 4, 7, 0, 5, 12, 0, 5, 0, 5, 1, 0, 1, 65],
      later)
    ∧ (Pool.read ⟨1⟩).Reads [0, 6, 15, 6, 0, 2, 10, 0, 3, 0, 4, 7, 0, 5, 12, 0, 5, 0, 5, 1, 0, 1,
      65, 9, 9] again [9, 9] notices := by
  have hresolves : Resolves ⟨0⟩
      [.methodHandle .invokeStatic 2, .methodRef 3 4, .classInfo 5, .nameAndType 5 5,
        .leaf (.utf8 "A")]
      [.methodHandle .invokeStatic ⟨⟨0⟩, 1⟩, .methodRef ⟨⟨⟨0⟩, 2⟩⟩ ⟨⟨⟨0⟩, 3⟩⟩,
        .classInfo ⟨⟨⟨0⟩, 4⟩⟩, .nameAndType ⟨⟨⟨0⟩, 4⟩⟩ ⟨⟨⟨0⟩, 4⟩⟩, .utf8 "A"] := by
    refine ⟨?_, by decide, .cons rfl (.cons rfl (.cons rfl (.cons rfl (.cons rfl .nil))))⟩
    simp only [List.forall_mem_cons]
    refine ⟨trivial, trivial, trivial, trivial, ?_, fun _ hnil => nomatch hnil⟩
    show (ModifiedUtf8.encode (Utf16.ofString "A")).length < 2 ^ 16
    decide
  have hread : (Pool.read ⟨0⟩).Reads [0, 6, 15, 6, 0, 2, 10, 0, 3, 0, 4, 7, 0, 5, 12, 0, 5, 0, 5,
      1, 0, 1, 65] _ [] _ := reads_read_iff.mpr ⟨_, _, hresolves, rfl, rfl, rfl⟩
  obtain ⟨-, -, used, indices, hused, -, hencode⟩ := rewrites_read hread
  obtain rfl := hused.trans (List.append_nil used)
  obtain ⟨-, -, hagain⟩ := BuiltFor.read_of_encode (.read hread) <| by
    intro kind reference hmem
    rw [constants_ofRead] at hmem
    simp only [List.mem_cons, Constant.methodHandle.injEq, reduceCtorEq, List.not_mem_nil,
      or_false] at hmem
    obtain ⟨rfl, rfl⟩ := hmem
    exact ⟨.methodRef ⟨⟨⟨0⟩, 2⟩⟩ ⟨⟨⟨0⟩, 3⟩⟩, rfl, by decide⟩
  obtain ⟨again, later, notices, hreads, hlater, -⟩ := hagain _ _ hencode ⟨1⟩
  exact ⟨again, later, notices, hlater, hreads [9, 9]⟩

end Pool

end ClassFormat
