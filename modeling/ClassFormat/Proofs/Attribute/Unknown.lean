import ClassFormat.Proofs.Attribute.Payload
import ClassFormat.Proofs.Pool.Kinds
/-!
# Attributes that are not understood

An attribute is taken off the input as a frame: the index of its name, the length of its payload,
the payload. Only then is the name looked at. A name that no kind has leaves the payload as it is,
and what is written later is the frame again.

The name is looked at as a string, though. A pool also keeps text whose surrogates do not pair up,
and an attribute with such a name is refused, whatever its payload: `read_unrecognised` says so next
to what holds of all other names.
-/

namespace ClassFormat

namespace AttributeKind

theorem mem_all (kind : AttributeKind) : kind ∈ all := by
  cases kind with
  | annotations visibility | parameterAnnotations visibility => cases visibility <;> decide
  | _ => decide

/-- A name is not recognised when it is the name of no kind. -/
theorem ofName?_eq_none_iff {text : String} :
    ofName? text = none ↔ ∀ kind : AttributeKind, kind.name ≠ text := by
  rw [ofName?, List.find?_eq_none]
  constructor
  · intro h kind heq
    exact h kind (mem_all kind) (by simp [heq])
  · intro h kind _
    simpa using h kind

end AttributeKind

section

variable {pool : Pool} {index : UInt16} {id : ConstantId} {constant : Constant} {payload : Bytes}

/-- The index of a text constant is read as a handle on it, whatever the text. -/
theorem Pool.reads_readUtf8 (hid : pool.idAt index = .ok id)
    (hconstant : pool.constant id = .ok constant) (htag : constant.tag = .utf8) (rest : Bytes) :
    pool.readUtf8.Reads (BigEndian.u16 index ++ rest) ⟨id⟩ rest [] := by
  have hname : pool.utf8At index = .ok ⟨id⟩ := by
    refine map_eq_ok_iff.mpr ⟨id, ?_, rfl⟩
    refine bind_eq_ok_iff.mpr ⟨id, hid, bind_eq_ok_iff.mpr ⟨constant, hconstant, ?_⟩⟩
    rw [if_pos (by rw [htag]; exact List.mem_singleton_self _)]
    rfl
  rw [readUtf8, Reader.reads_bind_exact Reader.reads_u16]
  exact ⟨index, rest, rfl, Reader.reads_ofExcept.mpr ⟨hname, rfl, rfl⟩⟩

namespace Attribute

/-- The bytes of an attribute: the index of its name, the length of its payload, the payload. -/
def frame (index : UInt16) (payload : Bytes) : Bytes :=
  BigEndian.u16 index ++ (BigEndian.u32 (UInt32.ofNat payload.length) ++ payload)

/-- The frame is taken off the input before the name is looked at. -/
theorem readWith_frame (nested : Nat → Reader Attribute) (hid : pool.idAt index = .ok id)
    (hconstant : pool.constant id = .ok constant) (htag : constant.tag = .utf8)
    (hlength : payload.length < 2 ^ 32) (rest : Bytes) :
    readWith pool nested (frame index payload ++ rest)
      = (Reader.ofExcept (pool.text ⟨id⟩) >>= fun text =>
          readBehind pool (nested payload.length) ⟨id⟩ text payload) rest := by
  have hcount : (UInt32.ofNat payload.length).toNat = payload.length :=
    UInt32.toNat_ofNat_of_lt' hlength
  have hname := Pool.reads_readUtf8 hid hconstant htag
    (BigEndian.u32 (UInt32.ofNat payload.length) ++ (payload ++ rest))
  have hnumber : Reader.u32.Reads (BigEndian.u32 (UInt32.ofNat payload.length) ++ (payload ++ rest))
      (UInt32.ofNat payload.length) (payload ++ rest) [] :=
    Reader.reads_u32.mpr ⟨rfl, rfl⟩
  have hdata : (Reader.block (UInt32.ofNat payload.length).toNat).Reads (payload ++ rest) payload
      rest [] :=
    Reader.reads_block.mpr ⟨rfl, hcount.symm, rfl⟩
  rw [readWith, frame, List.append_assoc, List.append_assoc, Reader.run_bind_ok hname,
    Reader.run_bind_ok hnumber, Reader.run_bind_ok hdata, hcount]
  rfl

/-- A payload that is not understood is written into the same frame. -/
theorem encode_unknown {indices : Indices} (hindex : indices.indexOf id = .ok index)
    (hlength : payload.length < 2 ^ 32) :
    Attribute.encode indices ⟨⟨id⟩, .unknown payload⟩ = .ok (frame index payload) := by
  have hheader : encodeHeader indices ⟨id⟩ payload.length
      = .ok (BigEndian.u16 index ++ BigEndian.u32 (UInt32.ofNat payload.length)) := by
    have hnarrow : narrow32 .attributeLength payload.length
        = .ok (UInt32.ofNat payload.length) := if_pos hlength
    rw [encodeHeader, Indices.encode, hindex, hnarrow]
    rfl
  rw [Attribute.encode, frame, ← List.append_assoc]
  simp only [Payload.encode, Payload.length, hheader]
  simp [bind, Except.bind, pure, Except.pure]

/-- **Attributes under a name that no kind has.** If the name is a string, the attribute is read
with exactly its payload, nothing of what follows is touched, and the pool's indices write the same
bytes. If the name is text whose surrogates do not pair up, the attribute is refused for its name,
although writing it would be possible. -/
theorem read_unrecognised (h : pool.Reachable) (hid : pool.idAt index = .ok id)
    (hconstant : pool.constant id = .ok constant) (htag : constant.tag = .utf8)
    (hname : ∀ text, constant = .utf8 text → ∀ kind : AttributeKind, kind.name ≠ text)
    (hlength : payload.length < 2 ^ 32) :
    (∀ text, constant = .utf8 text → ∀ rest, (Attribute.read pool).Reads
        (frame index payload ++ rest) ⟨⟨id⟩, .unknown payload⟩ rest
        [.keptOpaque text payload.length])
      ∧ (∀ units, constant = .utf16 units → ∀ rest,
        Attribute.read pool (frame index payload ++ rest) = ⟨.error (.unpairedSurrogates id), []⟩)
      ∧ ∀ indices, pool.resolve = .ok indices →
        Attribute.encode indices ⟨⟨id⟩, .unknown payload⟩ = .ok (frame index payload) := by
  refine ⟨fun text htext rest => ?_, fun units hunits rest => ?_, fun indices hresolve => ?_⟩
  · subst htext
    have hfound : pool.text ⟨id⟩ = .ok text := by
      rw [Pool.text, hconstant]
      rfl
    have hkind : AttributeKind.ofName? text = none :=
      AttributeKind.ofName?_eq_none_iff.mpr (hname text rfl)
    rw [Reader.Reads, Attribute.read, readWith_frame _ hid hconstant htag hlength, hfound]
    change readBehind pool _ ⟨id⟩ text payload rest = _
    rw [readBehind, hkind]
    rfl
  · subst hunits
    have hrefused : pool.text ⟨id⟩ = .error (.unpairedSurrogates id) := by
      rw [Pool.text, hconstant]
      rfl
    rw [Attribute.read, readWith_frame _ hid hconstant htag hlength, hrefused]
    rfl
  · exact encode_unknown ((h.valid.idAt_iff_indexOf hresolve).mp hid) hlength

end Attribute

end

namespace Attribute

/-- An attribute named `A` keeps its payload. -/
theorem read_unrecognised_named :
    (Attribute.read (.ofRead ⟨0⟩ [.utf8 "A", .classInfo ⟨⟨⟨0⟩, 0⟩⟩])).Reads
        (frame 1 [7, 8] ++ [9]) ⟨⟨⟨⟨0⟩, 0⟩⟩, .unknown [7, 8]⟩ [9] [.keptOpaque "A" 2]
      ∧ ∀ indices, (Pool.ofRead ⟨0⟩ [.utf8 "A", .classInfo ⟨⟨⟨0⟩, 0⟩⟩]).resolve = .ok indices →
        Attribute.encode indices ⟨⟨⟨⟨0⟩, 0⟩⟩, .unknown [7, 8]⟩ = .ok (frame 1 [7, 8]) := by
  have hname (text : String) (htext : Constant.utf8 "A" = .utf8 text) (kind : AttributeKind) :
      kind.name ≠ text := by
    cases htext
    exact AttributeKind.ofName?_eq_none_iff.mp (by decide) kind
  obtain ⟨hreads, -, hencode⟩ := @read_unrecognised _ 1 ⟨⟨0⟩, 0⟩ _ [7, 8]
    Pool.resolves_named.reachable rfl rfl rfl hname (by decide)
  exact ⟨hreads "A" rfl [9], hencode⟩

/-- A pool keeps the text `0xd800`, but no attribute of that name is read, not even an empty one. -/
theorem unpaired_name_refused :
    let pool := Pool.ofRead ⟨0⟩ [.utf16 [0xd800], .classInfo ⟨⟨⟨0⟩, 0⟩⟩]
    (∃ notices, (Pool.read ⟨0⟩).Reads [0, 3, 1, 0, 3, 0xed, 0xa0, 0x80, 7, 0, 1] pool [] notices)
      ∧ pool.constantAt 1 = .ok (.utf16 [0xd800])
      ∧ Attribute.read pool [0, 1, 0, 0, 0, 0] = ⟨.error (.unpairedSurrogates ⟨⟨0⟩, 0⟩), []⟩ := by
  exact ⟨⟨_, Pool.reads_read_iff.mpr ⟨_, _, Pool.resolves_unpaired, rfl, rfl, rfl⟩⟩, rfl, rfl⟩

end Attribute

end ClassFormat
