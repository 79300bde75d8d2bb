import ClassFormat.Proofs.Pool.Fixed
import ClassFormat.Proofs.Pool.Kinds
/-!
# Reading a pool again

The constants of a pool are written in the order of their indices, which need not be the order in
which they were added, so references may lead forward. Each raw constant that was written can be
resolved when the references of the pool's constants are of the kinds they have to be: a reference
leads to the raw constant at its index, and that has the tag of the constant referred to. The pool
that is read mirrors the one that was written.
-/

namespace ClassFormat

namespace RawConstant

variable {pool : Pool} {lookup : Lookup} {indices : Indices} {index : UInt16} {id : ConstantId}

/-- References by index can be followed, wherever the pool keeps a constant of a wanted kind. -/
def Follows (pool : Pool) (indices : Indices) (lookup : Lookup) : Prop :=
  ∀ tags role index id, indices.indexOf id = .ok index → pool.Keeps tags id →
    ∃ found, lookup tags role index = .ok found

/-- The index of a handle on a text is resolved as one of a text. -/
theorem Follows.exists_utf8 (h : Follows pool indices lookup)
    (hindex : indices.indexOf id = .ok index) (hkeeps : pool.Keeps [.utf8] id) :
    ∃ found, resolveUtf8 lookup index = .ok found := by
  obtain ⟨found, hfound⟩ := h _ _ _ _ hindex hkeeps
  exact ⟨⟨found⟩, resolveUtf8_eq_ok_iff.mpr hfound⟩

/-- The index of a handle on a class is resolved as one of a class. -/
theorem Follows.exists_class (h : Follows pool indices lookup)
    (hindex : indices.indexOf id = .ok index) (hkeeps : pool.Keeps [.classInfo] id) :
    ∃ found, resolveClass lookup index = .ok found := by
  obtain ⟨found, hfound⟩ := h _ _ _ _ hindex hkeeps
  exact ⟨⟨found⟩, resolveClass_eq_ok_iff.mpr hfound⟩

/-- The index of a handle on a name with a descriptor is resolved as one. -/
theorem Follows.exists_member (h : Follows pool indices lookup)
    (hindex : indices.indexOf id = .ok index) (hkeeps : pool.Keeps [.nameAndType] id) :
    ∃ found, resolveMember lookup index = .ok found := by
  obtain ⟨found, hfound⟩ := h _ _ _ _ hindex hkeeps
  exact ⟨⟨found⟩, resolveMember_eq_ok_iff.mpr hfound⟩

/-- The raw form of a sound constant can be resolved. -/
theorem exists_resolve {constant : Constant} {raw : RawConstant}
    (hfollows : Follows pool indices lookup)
    (hsound : constant.RefersAs pool.Keeps) (h : constant.toRaw indices = .ok raw) :
    ∃ other, raw.resolve lookup = .ok other := by
  cases constant with
  | utf8 _ | utf16 _ | integer _ | float _ | long _ | double _ =>
    cases h
    exact ⟨_, rfl⟩
  | classInfo name | string name | methodType name | moduleInfo name | packageInfo name =>
    obtain ⟨index, hindex, rfl⟩ := map_eq_ok_iff.mp h
    obtain ⟨found, hfound⟩ := hfollows.exists_utf8 hindex hsound
    simp only [resolve, hfound]
    exact ⟨_, rfl⟩
  | fieldRef owner member | methodRef owner member | interfaceMethodRef owner member =>
    simp only [Constant.toRaw, bind_eq_ok_iff, pure_eq_ok_iff] at h
    obtain ⟨ownerIndex, howner, memberIndex, hmemberIndex, rfl⟩ := h
    obtain ⟨ownerFound, hownerFound⟩ := hfollows.exists_class howner hsound.1
    obtain ⟨memberFound, hmemberFound⟩ := hfollows.exists_member hmemberIndex hsound.2
    simp only [resolve, hownerFound, hmemberFound]
    exact ⟨_, rfl⟩
  | nameAndType name descriptor =>
    simp only [Constant.toRaw, bind_eq_ok_iff, pure_eq_ok_iff] at h
    obtain ⟨nameIndex, hname, descriptorIndex, hdescriptor, rfl⟩ := h
    obtain ⟨nameFound, hnameFound⟩ := hfollows.exists_utf8 hname hsound.1
    obtain ⟨descriptorFound, hdescriptorFound⟩ := hfollows.exists_utf8 hdescriptor hsound.2
    simp only [resolve, hnameFound, hdescriptorFound]
    exact ⟨_, rfl⟩
  | methodHandle kind reference =>
    obtain ⟨index, hindex, rfl⟩ := map_eq_ok_iff.mp h
    obtain ⟨found, hfound⟩ := hfollows _ .memberReference _ _ hindex hsound
    simp only [resolve, hfound]
    exact ⟨_, rfl⟩
  | dynamic bootstrap member | invokeDynamic bootstrap member =>
    obtain ⟨index, hindex, rfl⟩ := map_eq_ok_iff.mp h
    obtain ⟨found, hfound⟩ := hfollows.exists_member hindex hsound
    simp only [resolve, hfound]
    exact ⟨_, rfl⟩

end RawConstant

/-- If something goes along with each element, a list goes along with them all. -/
theorem exists_forall₂ {α β : Type} {R : α → β → Prop} {elements : List α}
    (h : ∀ element ∈ elements, ∃ other, R element other) :
    ∃ others, List.Forall₂ R elements others := by
  induction elements with
  | nil => exact ⟨[], .nil⟩
  | cons element elements ih =>
    rw [List.forall_mem_cons] at h
    obtain ⟨other, hother⟩ := h.1
    obtain ⟨others, hothers⟩ := ih h.2
    exact ⟨other :: others, .cons hother hothers⟩

namespace Pool

open Layout (place)

/-! ## Pools that were read -/

section

variable {tag : PoolTag} {raws : List RawConstant} {constants : List Constant}

/-- No notice about a constant is about something left out. -/
theorem quiet_notices (index : UInt16) (raw : RawConstant) : Quiet (raw.notices index) := by
  unfold RawConstant.notices
  split
  · exact quiet_singleton fun hdrop => nomatch hdrop
  · exact quiet_nil

/-- Reading a pool leaves out nothing. -/
theorem quiet_readPool (start : Nat) (raws : List RawConstant) (size distinct : Nat) :
    Quiet (RawPool.noticesOf start raws ++ [.readPool size distinct]) := by
  refine quiet_append.mpr ⟨?_, ?_⟩
  · intro notice hnotice
    obtain ⟨⟨index, raw⟩, -, hmem⟩ := List.mem_flatMap.mp hnotice
    exact quiet_notices _ raw notice hmem
  · exact quiet_singleton fun hdrop => nomatch hdrop

/-- A pool that was read is written as the bytes it was read from. -/
theorem rewrites_read {pool : Pool} {input rest : Bytes} {notices : List Notice}
    (hread : (Pool.read tag).Reads input pool rest notices) :
    Quiet notices ∧ pool.Sound ∧ ∃ used indices, input = used ++ rest ∧ pool.LaidOut indices
      ∧ pool.encode = .ok (used, indices) := by
  obtain ⟨raws, constants, hresolves, rfl, rfl, rfl⟩ := reads_read_iff.mp hread
  have hvalid := valid_ofRead tag constants
  have hsize : (ofRead tag constants).size = constants.length := by
    rw [← length_constants, constants_ofRead]
  obtain ⟨indices, hencode⟩ :=
    exists_encode_of_size_eq hresolves hvalid (.refl _) hsize
  exact ⟨quiet_readPool _ _ _ _, hresolves.typed.sound, _, indices, rfl,
    ⟨hvalid, (hvalid.encode_eq_ok_iff.mp hencode).1⟩, hencode⟩

end

/-! ## Pools that were written -/

section

variable {pool : Pool} {indices : Indices} {raws : List RawConstant} {tag : PoolTag}

/-- A constant that has an index is the one of its rank, and so is its raw form. -/
theorem LaidOut.exists_rank (h : pool.LaidOut indices)
    (hwritten : Written indices pool.rankedConstants raws) {id : ConstantId} {index : UInt16}
    (hindex : indices.indexOf id = .ok index) :
    ∃ (k : Nat) (constant : Constant) (raw : RawConstant), pool.constant id = .ok constant
      ∧ constant.toRaw indices = .ok raw ∧ (place 1 raws)[k]? = some (index.toNat, raw) := by
  have hstands := (h.valid.indexOf_eq_ok_iff h.resolve_eq).mp hindex
  obtain ⟨k, slot, hslot, rfl, hoffset⟩ := h.valid.stands_iff.mp hstands
  obtain ⟨constant, hconstant, hslotConstant, -⟩ :=
    getElem?_of_forall₂ pool.forall₂_rankedConstants hslot
  obtain ⟨raw, hraw, htoRaw, -⟩ := getElem?_of_forall₂ hwritten hconstant
  refine ⟨k, constant, raw, ?_, htoRaw, Layout.getElem?_place_eq_some.mpr ⟨hraw, ?_⟩⟩
  · have hmem := mem_ranked_iff.mp (List.mem_of_getElem? hslot)
    exact constant_eq_ok_iff.mpr ⟨hmem.1, hslotConstant⟩
  · rw [hoffset, hwritten.totalWidth_take_eq]

/-- The index of a constant leads to its raw form, if that is of a wanted kind. -/
theorem LaidOut.exists_lookup (h : pool.LaidOut indices)
    (hwritten : Written indices pool.rankedConstants raws) {tags : List ConstantTag}
    {role : ConstantRole} {id : ConstantId} {index : UInt16}
    (hindex : indices.indexOf id = .ok index) (hkeeps : pool.Keeps tags id) :
    ∃ found, (RawPool.ofConstants raws).lookup tag tags role index = .ok found := by
  obtain ⟨k, constant, raw, hconstant, hraw, hplace⟩ := h.exists_rank hwritten hindex
  refine ⟨⟨tag, k⟩, RawPool.lookup_ofConstants_iff.mpr ⟨raw, hplace, ?_, rfl⟩⟩
  rw [(Constant.tag_width_of_toRaw hraw).1]
  exact hkeeps constant hconstant

/-- What a sound pool was written as can be resolved. -/
theorem LaidOut.exists_resolves (h : pool.LaidOut indices) (hsound : pool.Sound)
    (hwritten : Written indices pool.rankedConstants raws) (tag : PoolTag) :
    ∃ constants, Resolves tag raws constants := by
  have hresolve : ∀ raw ∈ raws, ∃ other,
      raw.resolve ((RawPool.ofConstants raws).lookup tag) = .ok other := by
    intro raw hraw
    obtain ⟨k, hget⟩ := List.mem_iff_getElem?.mp hraw
    -- Each raw constant comes from one of the pool, which is sound.
    obtain ⟨constant, hconstant, htoRaw, -⟩ := getElem?_of_forall₂ hwritten.flip hget
    obtain ⟨slot, -, hslot⟩ := List.mem_filterMap.mp (List.mem_of_getElem? hconstant)
    exact RawConstant.exists_resolve
      (fun _ _ _ _ hindex hkeeps => h.exists_lookup hwritten hindex hkeeps)
      (hsound constant (List.mem_of_getElem? hslot)) htoRaw
  obtain ⟨constants, hconstants⟩ := exists_forall₂ hresolve
  refine ⟨constants, ?_, ?_, hconstants⟩
  · intro raw hraw
    obtain ⟨k, hget⟩ := List.mem_iff_getElem?.mp hraw
    obtain ⟨constant, -, -, hcanonical⟩ := getElem?_of_forall₂ hwritten.flip hget
    exact hcanonical
  · obtain ⟨hroom, -⟩ := resolve_eq_ok h.resolve_eq
    rw [h.valid.layout_holds.stop_eq, totalWidth_ranked] at hroom
    rw [hwritten.totalWidth_eq, totalWidth_rankedConstants]
    exact hroom

/-- A constant that has an index is read again at that index, with the same raw form. -/
theorem LaidOut.exists_reread_of_indexOf (h : pool.LaidOut indices)
    (hwritten : Written indices pool.rankedConstants raws) {constants : List Constant}
    (hresolves : Resolves tag raws constants) {later : Indices}
    (hlater : (ofRead tag constants).resolve = .ok later) {id : ConstantId} {index : UInt16}
    (hindex : indices.indexOf id = .ok index) :
    ∃ found constant other, (ofRead tag constants).idAt index = .ok found
      ∧ pool.constant id = .ok constant ∧ (ofRead tag constants).constant found = .ok other
      ∧ constant.ReadAs indices later other := by
  have hvalid := valid_ofRead tag constants
  have hagain := written_of_resolves hresolves hvalid (.refl _) hlater
  obtain ⟨k, constant, raw, hconstant, hraw, hplace⟩ := h.exists_rank hwritten hindex
  obtain ⟨hget, -⟩ := Layout.getElem?_place_eq_some.mp hplace
  obtain ⟨other, hother, hresolve⟩ := getElem?_of_forall₂ hresolves.resolved hget
  obtain ⟨_, hsame, hotherRaw, -⟩ := getElem?_of_forall₂ hagain hother
  rw [hget] at hsame
  cases hsame
  -- Looking the index up for its own tag finds the rank, whatever the role is.
  have hlookup : (RawPool.ofConstants raws).lookup tag [raw.tag] .utf8 index = .ok ⟨tag, k⟩ :=
    RawPool.lookup_ofConstants_iff.mpr ⟨raw, hplace, List.mem_singleton_self _, rfl⟩
  refine ⟨⟨tag, k⟩, constant, other, ?_, hconstant, ?_, ⟨raw, _, hraw, hresolve, hotherRaw⟩⟩
  · exact hvalid.idAt_eq_ok_iff.mpr (stands_of_lookup hresolves hvalid (.refl _) hlookup)
  · rw [constant_eq_ok_iff, constants_ofRead, tag_ofRead]
    exact ⟨rfl, hother⟩

/-- Nothing is read but at the indices of the pool that was written. -/
theorem LaidOut.exists_indexOf_of_reread (h : pool.LaidOut indices)
    (hwritten : Written indices pool.rankedConstants raws) {constants : List Constant}
    (hresolves : Resolves tag raws constants) {found : ConstantId} {index : UInt16}
    (hfound : (ofRead tag constants).idAt index = .ok found) :
    ∃ id, indices.indexOf id = .ok index := by
  have hvalid := valid_ofRead tag constants
  obtain ⟨k, slot, hslot, -, hoffset⟩ := hvalid.stands_iff.mp (hvalid.idAt_eq_ok_iff.mp hfound)
  -- The constant of the same rank in the pool that was written is the one looked for.
  have hlt : k < pool.ranked.length := by
    have hlength := (List.getElem?_eq_some_iff.mp hslot).1
    rw [ranked_ofRead, slotsOf, List.length_map, List.length_zipIdx,
      ← hresolves.resolved.length_eq, ← hwritten.length_eq, length_rankedConstants] at hlength
    rwa [length_ranked]
  refine ⟨pool.ranked[k].id, (h.valid.indexOf_eq_ok_iff h.resolve_eq).mpr ?_⟩
  refine h.valid.stands_iff.mpr ⟨k, pool.ranked[k], List.getElem?_eq_getElem hlt, rfl, ?_⟩
  rw [hoffset, ranked_ofRead, totalWidth_take_slotsOf, hresolves.totalWidth_take_eq,
    hwritten.totalWidth_take_eq]

/-- What is read of a written pool mirrors it. -/
theorem LaidOut.exists_mirrors (h : pool.LaidOut indices)
    (hwritten : Written indices pool.rankedConstants raws) {constants : List Constant}
    (hresolves : Resolves tag raws constants) :
    ∃ later, (ofRead tag constants).Mirrors indices later pool := by
  have hvalid := valid_ofRead tag constants
  have hroom := hresolves.room
  rw [← hresolves.totalWidth_eq] at hroom
  obtain ⟨later, hlater, -⟩ := hvalid.resolve_eq.1 (by rw [constants_ofRead]; omega)
  exact ⟨later, h, ⟨hvalid, hlater⟩, h.exists_reread_of_indexOf hwritten hresolves hlater,
    h.exists_indexOf_of_reread hwritten hresolves⟩

/-- A sound pool that was written is read again as one that mirrors it. -/
theorem exists_reread (hvalid : pool.Valid) (hsound : pool.Sound) {written : Bytes}
    (hencode : pool.encode = .ok (written, indices)) (tag : PoolTag) :
    ∃ again later notices, again.Mirrors indices later pool ∧ Quiet notices
      ∧ ∀ rest, (Pool.read tag).Reads (written ++ rest) again rest notices := by
  obtain ⟨hresolve, raws, hwritten, rfl⟩ := hvalid.encode_eq_ok_iff.mp hencode
  have h : pool.LaidOut indices := ⟨hvalid, hresolve⟩
  obtain ⟨constants, hresolves⟩ := h.exists_resolves hsound hwritten tag
  obtain ⟨later, hmirrors⟩ := h.exists_mirrors hwritten hresolves
  exact ⟨ofRead tag constants, later, _, hmirrors, quiet_readPool _ _ _ _, fun rest =>
    reads_read_iff.mpr ⟨raws, constants, hresolves, rfl, rfl, rfl⟩⟩

end

end Pool

end ClassFormat
