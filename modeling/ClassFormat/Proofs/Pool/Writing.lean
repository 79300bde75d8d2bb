import ClassFormat.Proofs.Pool.Index
/-!
# The written pool

A valid pool is written as the bytes of its raw constants in the order of their indices, behind the
count. `Pool.Valid.encode_eq_ok_iff` has the same shape as `Pool.reads_read_iff`, so what was
written and what is read are compared constant by constant.
-/

namespace ClassFormat

open Layout (totalWidth place)

namespace Pool

variable {pool : Pool} {indices : Indices} {id : ConstantId} {index : UInt16}

/-- The constants in the order of their indices. -/
def rankedConstants (pool : Pool) : List Constant :=
  pool.ranked.filterMap fun slot => pool.constants[slot.id.slot]?

/-- Where nothing is left out, a list goes along with what is made of it. -/
theorem forall₂_filterMap {α β : Type} {f : α → Option β} {P : α → β → Prop} {elements : List α}
    (h : ∀ element ∈ elements, ∃ value, f element = some value ∧ P element value) :
    List.Forall₂ (fun element value => f element = some value ∧ P element value) elements
      (elements.filterMap f) := by
  induction elements with
  | nil => exact .nil
  | cons element elements ih =>
    rw [List.forall_mem_cons] at h
    obtain ⟨value, hvalue, hP⟩ := h.1
    rw [List.filterMap_cons_some hvalue]
    exact .cons ⟨hvalue, hP⟩ (ih h.2)

/-- Each ranked slot goes along with its constant. -/
theorem forall₂_rankedConstants (pool : Pool) :
    List.Forall₂ (fun slot constant => pool.constants[slot.id.slot]? = some constant
      ∧ width slot = width constant) pool.ranked pool.rankedConstants := by
  refine forall₂_filterMap fun slot hslot => ?_
  obtain ⟨-, entry, hentry, hwidth⟩ := mem_ranked_iff.mp hslot
  refine ⟨entry.constant, ?_, hwidth⟩
  rw [constants, List.getElem?_map, Array.getElem?_toList, hentry]
  rfl

/-- All constants are written. -/
theorem length_rankedConstants (pool : Pool) : pool.rankedConstants.length = pool.size := by
  rw [← pool.forall₂_rankedConstants.length_eq, length_ranked]

/-- The first constants that are written take the indices of the first in the order. -/
theorem totalWidth_take_rankedConstants (pool : Pool) (k : Nat) :
    totalWidth (pool.rankedConstants.take k) = totalWidth (pool.ranked.take k) := by
  have hwidths := pool.forall₂_rankedConstants.imp fun _ _ h => h.2
  exact (Layout.totalWidth_eq_of_forall₂ (List.forall₂_take k hwidths)).symm

/-- The constants that are written take the indices that the constants of the pool take. -/
theorem totalWidth_rankedConstants (pool : Pool) :
    totalWidth pool.rankedConstants = totalWidth pool.constants := by
  have hwidths := pool.forall₂_rankedConstants.imp fun _ _ h => h.2
  rw [← Layout.totalWidth_eq_of_forall₂ hwidths, totalWidth_ranked]

/-- What is written are the constants in the order of their indices. -/
theorem Valid.toList_constants (h : pool.Valid) :
    pool.toList.map (fun entry => entry.2.2) = pool.rankedConstants := by
  rw [toList, h.layout_holds.toList_eq, List.map_filterMap, rankedConstants]
  conv_rhs => rw [← Layout.map_snd_place 1 pool.ranked, List.filterMap_map]
  congr 1
  funext entry
  simp [constants, Function.comp_def]

/-- Raw constants as which constants are written with some indices. -/
def Written (indices : Indices) (constants : List Constant) (raws : List RawConstant) : Prop :=
  List.Forall₂ (fun constant raw => constant.toRaw indices = .ok raw ∧ raw.Canonical) constants raws

/-- Constants take the same indices before and after they are written. -/
theorem Written.totalWidth_eq {constants : List Constant} {raws : List RawConstant}
    (h : Written indices constants raws) : totalWidth raws = totalWidth constants := by
  refine (Layout.totalWidth_eq_of_forall₂ (h.imp fun constant raw hraw => ?_)).symm
  exact (Constant.tag_width_of_toRaw hraw.1).2.symm

/-- What is in front of a raw constant is as wide as what is in front of the constant. -/
theorem Written.totalWidth_take_eq {raws : List RawConstant}
    (h : Written indices pool.rankedConstants raws) (count : Nat) :
    totalWidth (pool.ranked.take count) = totalWidth (raws.take count) := by
  have htake : Written indices (pool.rankedConstants.take count) (raws.take count) :=
    List.forall₂_take count h
  rw [htake.totalWidth_eq, totalWidth_take_rankedConstants]

/-- Constants are written one by one, as the bytes of raw ones. -/
theorem mapM_encode_iff {constants : List Constant} {written : List Bytes} :
    constants.mapM (Constant.encode indices) = .ok written
      ↔ ∃ raws, Written indices constants raws ∧ written = raws.map RawConstant.bytes := by
  rw [mapM_eq_ok_iff]
  simp only [Constant.encode_eq_ok_iff]
  constructor
  · intro h
    induction h with
    | nil => exact ⟨[], .nil, rfl⟩
    | cons hraw _ ih =>
      obtain ⟨raw, hraw, hcanonical, rfl⟩ := hraw
      obtain ⟨raws, hraws, rfl⟩ := ih
      exact ⟨raw :: raws, .cons ⟨hraw, hcanonical⟩ hraws, rfl⟩
  · rintro ⟨raws, hraws, rfl⟩
    induction hraws with
    | nil => exact .nil
    | cons hraw _ ih => exact .cons ⟨_, hraw.1, hraw.2, rfl⟩ ih

/-- A valid pool is written as the bytes of its raw constants, in the order of their indices and
behind the count. -/
theorem Valid.encode_eq_ok_iff (h : pool.Valid) {written : Bytes} :
    pool.encode = .ok (written, indices) ↔ pool.resolve = .ok indices
      ∧ ∃ raws, Written indices pool.rankedConstants raws
        ∧ written = BigEndian.encode 2 (1 + totalWidth raws) ++ RawPool.bytesOf raws := by
  have hmapM : pool.toList.mapM (fun entry => entry.2.2.encode indices)
      = pool.rankedConstants.mapM (Constant.encode indices) := by
    rw [← h.toList_constants, List.mapM_map]
    rfl
  have hcount {raws : List RawConstant} (hresolve : pool.resolve = .ok indices)
      (hraws : Written indices pool.rankedConstants raws) :
      BigEndian.u16 indices.count = BigEndian.encode 2 (1 + totalWidth raws) := by
    obtain ⟨hroom, -, hcount, -⟩ := resolve_eq_ok hresolve
    rw [hraws.totalWidth_eq, totalWidth_rankedConstants, ← totalWidth_ranked,
      ← h.layout_holds.stop_eq, hcount, BigEndian.encode_two_of_lt hroom]
  simp only [encode, bind_eq_ok_iff, pure_eq_ok_iff, Prod.mk.injEq]
  constructor
  · rintro ⟨_, hresolve, constants, hconstants, rfl, rfl⟩
    rw [hmapM, mapM_encode_iff] at hconstants
    obtain ⟨raws, hraws, rfl⟩ := hconstants
    refine ⟨hresolve, raws, hraws, ?_⟩
    rw [hcount hresolve hraws, RawPool.bytesOf, List.flatMap]
  · rintro ⟨hresolve, raws, hraws, rfl⟩
    refine ⟨indices, hresolve, raws.map RawConstant.bytes, ?_, ?_, rfl⟩
    · rw [hmapM]
      exact mapM_encode_iff.mpr ⟨raws, hraws, rfl⟩
    · rw [hcount hresolve hraws, RawPool.bytesOf, List.flatMap]

end Pool

end ClassFormat
