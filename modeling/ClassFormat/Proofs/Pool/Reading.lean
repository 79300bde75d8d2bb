import ClassFormat.Proofs.Pool.Order
import ClassFormat.Proofs.Pool.Raw
/-!
# Pools that were read

The first pass takes raw constants off the input, and `RawPool.reads_read_iff` says exactly which:
any canonical ones whose widths leave room for the count. The second pass gives a slot to each of
them. `Pool.reads_read_iff` puts both together: a pool is read exactly off the bytes of raw
constants whose references all point at constants of the right kinds.
-/

namespace ClassFormat

open Layout (totalWidth place)

/-! ## The first pass -/

namespace RawPool

variable {count : Nat} {input rest : Bytes} {notices : List Notice} {raw final : RawPool}

/-- One more raw constant. -/
def push (raw : RawPool) (constant : RawConstant) : RawPool where
  next := raw.next + width constant
  constants := raw.constants.push constant
  places := raw.places.setIfInBounds raw.next (some (raw.constants.size, constant.tag))

/-- A constant in a file takes at least one index. -/
theorem width_pos (constant : RawConstant) : 0 < width constant := by
  cases constant with
  | leaf constant => exact Pool.width_pos constant
  | _ => exact Nat.one_pos

/-- The bytes of some raw constants. -/
def bytesOf (constants : List RawConstant) : Bytes := constants.flatMap RawConstant.bytes

/-- The notices that reading some raw constants leaves. -/
def noticesOf (start : Nat) (constants : List RawConstant) : List Notice :=
  (place start constants).flatMap fun (index, constant) => constant.notices (UInt16.ofNat index)

/-- One step of the first pass takes a canonical constant off the input. -/
theorem reads_step_iff : (step raw).Reads input final rest notices
    ↔ ∃ constant : RawConstant, constant.Canonical ∧ final = raw.push constant
      ∧ input = constant.bytes ++ rest ∧ notices = constant.notices (UInt16.ofNat raw.next) := by
  simp only [step, Reader.reads_bind, Reader.reads_pure, RawConstant.reads_read_iff]
  constructor
  · rintro ⟨constant, _, _, _, ⟨hcanonical, rfl, rfl⟩, ⟨rfl, rfl, rfl⟩, rfl⟩
    exact ⟨constant, hcanonical, rfl, rfl, List.append_nil _⟩
  · rintro ⟨constant, hcanonical, rfl, rfl, rfl⟩
    exact ⟨constant, rest, _, [], ⟨hcanonical, rfl, rfl⟩, ⟨rfl, rfl, rfl⟩, (List.append_nil _).symm⟩

/-- Canonical raw constants that each start below the count, and end at it or behind it. -/
def Fill (count start : Nat) : List RawConstant → Prop
  | [] => count ≤ start
  | constant :: constants =>
    constant.Canonical ∧ start < count ∧ Fill count (start + width constant) constants

/-- Nothing more is taken once the count is reached. -/
theorem exists_fill_iff_of_le (hge : count ≤ raw.next) :
    (∃ constants : List RawConstant, Fill count raw.next constants
      ∧ final = constants.foldl push raw ∧ input = bytesOf constants ++ rest
      ∧ notices = noticesOf raw.next constants)
    ↔ final = raw ∧ rest = input ∧ notices = [] := by
  constructor
  · rintro ⟨_ | ⟨constant, constants⟩, hfill, rfl, rfl, rfl⟩
    · exact ⟨rfl, rfl, rfl⟩
    · exact absurd hfill.2.1 (Nat.not_lt_of_le hge)
  · rintro ⟨rfl, rfl, rfl⟩
    exact ⟨[], hge, rfl, rfl, rfl⟩

/-- The loop takes raw constants as long as their indices are below the count. -/
theorem reads_loop_iff (bound : Nat) (hbound : count ≤ raw.next + bound) :
    (Reader.loop (fun raw => raw.next < count) step bound raw).Reads input final rest notices
    ↔ ∃ constants : List RawConstant, Fill count raw.next constants
      ∧ final = constants.foldl push raw ∧ input = bytesOf constants ++ rest
      ∧ notices = noticesOf raw.next constants := by
  -- Each constant takes at least one index, so the bound never ends the loop before the count.
  induction bound generalizing raw input notices with
  | zero =>
    rw [Reader.reads_loop_zero, exists_fill_iff_of_le hbound]
  | succ bound ih =>
    rw [Reader.reads_loop_succ]
    by_cases hmore : raw.next < count
    · simp only [decide_eq_true hmore, if_true, Reader.reads_bind, reads_step_iff]
      have hnext (constant : RawConstant) : count ≤ (raw.push constant).next + bound := by
        have hpos := width_pos constant
        simp only [push]
        omega
      constructor
      · rintro ⟨_, _, _, _, ⟨constant, hcanonical, rfl, rfl, rfl⟩, hloop, rfl⟩
        obtain ⟨constants, hfill, rfl, rfl, rfl⟩ := (ih (hnext constant)).mp hloop
        refine ⟨constant :: constants, ⟨hcanonical, hmore, hfill⟩, rfl, ?_, rfl⟩
        rw [bytesOf, bytesOf, List.flatMap_cons, List.append_assoc]
      · rintro ⟨_ | ⟨constant, constants⟩, hfill, rfl, rfl, rfl⟩
        · exact absurd hmore (Nat.not_lt_of_le hfill)
        · obtain ⟨hcanonical, -, hfill⟩ := hfill
          refine ⟨raw.push constant, bytesOf constants ++ rest, _, _,
            ⟨constant, hcanonical, rfl, ?_, rfl⟩,
            (ih (hnext constant)).mpr ⟨constants, hfill, rfl, rfl, rfl⟩, rfl⟩
          rw [bytesOf, bytesOf, List.flatMap_cons, List.append_assoc]
    · rw [exists_fill_iff_of_le (Nat.le_of_not_lt hmore)]
      simp only [decide_eq_false hmore, Bool.false_eq_true, if_false]

/-- Raw constants that end at the count start below it. -/
theorem fill_iff {start : Nat} {constants : List RawConstant}
    (hcount : start + totalWidth constants = count) :
    Fill count start constants ↔ ∀ constant ∈ constants, constant.Canonical := by
  induction constants generalizing start with
  | nil =>
    rw [Layout.totalWidth_nil] at hcount
    simp [Fill, ← hcount]
  | cons constant constants ih =>
    rw [Layout.totalWidth_cons] at hcount
    have hpos := width_pos constant
    rw [Fill, ih (by omega), List.forall_mem_cons]
    simp only [show start < count by omega, true_and]

/-- After some constants, the next index is behind all of their widths. -/
theorem next_foldl_push (constants : List RawConstant) (raw : RawPool) :
    (constants.foldl push raw).next = raw.next + totalWidth constants := by
  induction constants generalizing raw with
  | nil => rfl
  | cons constant constants ih =>
    rw [List.foldl_cons, ih, Layout.totalWidth_cons, ← Nat.add_assoc]
    rfl

/-- The constants taken off the input are kept in order. -/
theorem constants_foldl_push (constants : List RawConstant) (raw : RawPool) :
    (constants.foldl push raw).constants.toList = raw.constants.toList ++ constants := by
  induction constants generalizing raw with
  | nil => simp
  | cons constant constants ih =>
    rw [List.foldl_cons, ih, List.append_cons]
    simp [push]

/-- What the first pass makes of some raw constants. -/
def ofConstants (constants : List RawConstant) : RawPool :=
  constants.foldl push (start (1 + totalWidth constants))

/-- The first pass keeps all constants of the file. -/
theorem constants_ofConstants (constants : List RawConstant) :
    (ofConstants constants).constants.toList = constants := by
  rw [ofConstants, constants_foldl_push]
  rfl

/-- The first pass takes any canonical raw constants that leave room for the count in front. -/
theorem reads_read_iff : RawPool.read.Reads input raw rest notices
    ↔ ∃ constants : List RawConstant, (∀ constant ∈ constants, constant.Canonical)
      ∧ 1 + totalWidth constants < 2 ^ 16 ∧ raw = ofConstants constants
      ∧ input = BigEndian.encode 2 (1 + totalWidth constants) ++ bytesOf constants ++ rest
      ∧ notices = noticesOf 1 constants := by
  rw [RawPool.read, Reader.reads_bind]
  constructor
  · rintro ⟨count, _, _, _, hcount, hrest, rfl⟩
    obtain ⟨rfl, rfl⟩ := Reader.reads_u16.mp hcount
    obtain ⟨final, _, _, _, hloop, hlast, rfl⟩ := Reader.reads_bind.mp hrest
    obtain ⟨constants, hfill, rfl, rfl, rfl⟩ :=
      (reads_loop_iff count.toNat (Nat.le_add_left ..)).mp hloop
    -- Where the loop ends has to be the count: a constant of two must not reach over it.
    split at hlast
    · rename_i hnext
      obtain ⟨rfl, rfl, rfl⟩ := Reader.reads_pure.mp hlast
      rw [next_foldl_push] at hnext
      change 1 + totalWidth constants = _ at hnext
      refine ⟨constants, (fill_iff hnext).mp hfill, ?_, ?_, ?_, ?_⟩
      · rw [hnext]
        exact count.toNat_lt
      · rw [ofConstants, hnext]
      · rw [hnext, ← BigEndian.u16, List.append_assoc]
      · exact List.append_nil _
    · exact absurd hlast Reader.reads_fail
  · rintro ⟨constants, hcanonical, hlt, rfl, rfl, rfl⟩
    have hcount : (UInt16.ofNat (1 + totalWidth constants)).toNat = 1 + totalWidth constants :=
      UInt16.toNat_ofNat_of_lt' hlt
    refine ⟨UInt16.ofNat (1 + totalWidth constants), bytesOf constants ++ rest, [], _,
      Reader.reads_u16.mpr ⟨?_, rfl⟩, Reader.reads_bind.mpr ⟨ofConstants constants, rest,
        noticesOf 1 constants, [], ?_, ?_, rfl⟩, ?_⟩
    · rw [BigEndian.encode_two_of_lt hlt, List.append_assoc]
    · rw [hcount]
      exact (reads_loop_iff _ (Nat.le_add_left ..)).mpr
        ⟨constants, (fill_iff rfl).mpr hcanonical, rfl, rfl, rfl⟩
    · have hnext : (ofConstants constants).next = 1 + totalWidth constants :=
        next_foldl_push constants (start (1 + totalWidth constants))
      rw [hcount, if_pos hnext]
      exact Reader.reads_pure.mpr ⟨rfl, rfl, rfl⟩
    · rw [List.append_nil, List.nil_append]

/-! ### Looking up what was taken -/

/-- The places of a raw pool are those of its constants. -/
structure Located (raw : RawPool) : Prop where
  next_eq : raw.next = 1 + totalWidth raw.constants.toList
  places_iff : ∀ (index slot : Nat) (tag : ConstantTag),
    raw.places[index]? = some (some (slot, tag))
    ↔ ∃ constant : RawConstant, (place 1 raw.constants.toList)[slot]? = some (index, constant)
      ∧ constant.tag = tag

/-- Before anything is taken off the input, no place is taken. -/
theorem located_start (count : Nat) : (start count).Located where
  next_eq := rfl
  places_iff := by
    intro index slot tag
    rw [start, Array.getElem?_replicate]
    split <;> simp [place]

/-- The constants that were taken start before the next one. -/
theorem Located.lt_next (h : raw.Located) {slot index : Nat} {constant : RawConstant}
    (hget : (place 1 raw.constants.toList)[slot]? = some (index, constant)) :
    index < raw.next := by
  obtain ⟨hconstant, rfl⟩ := Layout.getElem?_place_eq_some.mp hget
  have hlt := (List.getElem?_eq_some_iff.mp hconstant).1
  have hbefore := Layout.totalWidth_take_lt (fun other _ => width_pos other) hlt hlt
  rw [List.take_length] at hbefore
  rw [h.next_eq]
  exact Nat.add_lt_add_left hbefore 1

/-- A constant is placed at the index that was the next one. -/
theorem Located.place_push (h : raw.Located) (constant : RawConstant) :
    place 1 (raw.push constant).constants.toList
      = place 1 raw.constants.toList ++ [(raw.next, constant)] := by
  rw [push, Array.toList_push, Layout.place_append, h.next_eq]
  rfl

/-- Noting the place of one more constant keeps all places right. -/
theorem Located.push (h : raw.Located) (hroom : raw.next < raw.places.size)
    (constant : RawConstant) : (raw.push constant).Located where
  next_eq := by
    rw [RawPool.push, Array.toList_push, Layout.totalWidth_append, h.next_eq,
      Layout.totalWidth_cons, Layout.totalWidth_nil, Nat.add_zero, Nat.add_assoc]
  places_iff := by
    intro index slot tag
    have hlength : (place 1 raw.constants.toList).length = raw.constants.size := by
      rw [Layout.length_place, Array.length_toList]
    rw [h.place_push]
    show (raw.places.setIfInBounds raw.next (some (raw.constants.size, constant.tag)))[index]?
      = _ ↔ _
    rw [Array.getElem?_setIfInBounds]
    by_cases hindex : raw.next = index
    -- At the next index only the new constant starts.
    · subst hindex
      rw [if_pos rfl, if_pos hroom]
      simp only [Option.some.injEq, Prod.mk.injEq]
      constructor
      · rintro ⟨rfl, rfl⟩
        refine ⟨constant, ?_, rfl⟩
        rw [← hlength, List.getElem?_concat_length]
      · rintro ⟨other, hget, htag⟩
        rcases Nat.lt_or_ge slot raw.constants.size with hlt | hge
        · rw [List.getElem?_append_left (by omega)] at hget
          exact absurd (h.lt_next hget) (Nat.lt_irrefl _)
        · rw [List.getElem?_append_right (by omega), List.getElem?_singleton] at hget
          split at hget
          · cases hget
            exact ⟨by omega, htag⟩
          · cases hget
    -- At any other index nothing has changed.
    · rw [if_neg hindex, h.places_iff]
      refine exists_congr fun other => and_congr_left fun _ => ?_
      rcases Nat.lt_or_ge slot raw.constants.size with hlt | hge
      · rw [List.getElem?_append_left (by omega)]
      · rw [List.getElem?_append_right (by omega), List.getElem?_singleton,
          List.getElem?_eq_none (by omega)]
        split
        · simp [hindex]
        · rfl

theorem size_places_push (constant : RawConstant) :
    (raw.push constant).places.size = raw.places.size :=
  Array.size_setIfInBounds ..

/-- The places of all constants are right as long as the table has room for them. -/
theorem Located.foldl_push (h : raw.Located) {constants : List RawConstant}
    (hroom : raw.next + totalWidth constants ≤ raw.places.size) :
    (constants.foldl RawPool.push raw).Located := by
  induction constants generalizing raw with
  | nil => exact h
  | cons constant constants ih =>
    rw [Layout.totalWidth_cons] at hroom
    have hpos := width_pos constant
    refine ih (h.push (by omega) constant) ?_
    rw [size_places_push]
    simp only [RawPool.push]
    omega

/-- A reference leads to the constant that stands at its index, if that is of a wanted kind. -/
theorem lookup_ofConstants_iff {constants : List RawConstant} {pool : PoolTag}
    {tags : List ConstantTag} {role : ConstantRole} {index : UInt16} {id : ConstantId} :
    (ofConstants constants).lookup pool tags role index = .ok id
      ↔ ∃ constant : RawConstant, (place 1 constants)[id.slot]? = some (index.toNat, constant)
        ∧ constant.tag ∈ tags ∧ id.pool = pool := by
  have hlocated : (ofConstants constants).Located := by
    refine (located_start _).foldl_push ?_
    simp [start]
  have hplaces (slot : Nat) (tag : ConstantTag) := hlocated.places_iff index.toNat slot tag
  rw [constants_ofConstants] at hplaces
  rw [lookup]
  constructor
  · intro h
    split at h
    · rename_i slot tag hfound
      obtain ⟨constant, hget, rfl⟩ := (hplaces slot tag).mp hfound
      split at h
      · rename_i htag
        cases h
        exact ⟨constant, hget, htag, rfl⟩
      · cases h
    · cases h
  · rintro ⟨constant, hget, htag, rfl⟩
    rw [(hplaces id.slot constant.tag).mpr ⟨constant, hget, rfl⟩]
    simp only [if_pos htag]

end RawPool

/-! ## The second pass -/

namespace Pool

variable {tag : PoolTag} {pool : Pool}

/-- The pool with a constant that was read behind the others. -/
def withRead (pool : Pool) (constant : Constant) : Pool :=
  { (pool.pushEntry constant).2 with
    interned := pool.interned.insertIfNew constant (pool.pushEntry constant).1 }

/-- The pool of some constants that were all read. -/
def ofRead (tag : PoolTag) (constants : List Constant) : Pool :=
  let pool := constants.foldl withRead (Pool.empty tag)
  { pool with fixed := pool.size }

/-- Layout and distinct constants of a pool that is being read. -/
structure Loaded (pool : Pool) : Prop where
  layout_holds : pool.layout.Holds 1 (slotsOf pool.tag pool.constants)
  interned_eq : ∀ constant, pool.interned[constant]?
    = (pool.constants.idxOf? constant).map (ConstantId.mk pool.tag)

/-- Before the second pass there is nothing to find. -/
theorem loaded_empty (tag : PoolTag) : (Pool.empty tag).Loaded where
  layout_holds := Layout.holds_startingAt 1
  interned_eq := by
    intro constant
    simp [Pool.empty, constants]

/-- The second pass puts each constant behind the others, be it there already or not. -/
theorem constants_withRead (constant : Constant) :
    (pool.withRead constant).constants = pool.constants ++ [constant] := by
  simp [constants, withRead, pushEntry]

/-- With one more constant the first slot of each distinct one is still known. -/
theorem Loaded.withRead (h : pool.Loaded) (constant : Constant) :
    (pool.withRead constant).Loaded where
  layout_holds := by
    rw [constants_withRead, slotsOf_concat, length_constants]
    exact h.layout_holds.push _
  interned_eq := by
    intro other
    show (pool.interned.insertIfNew constant ⟨pool.tag, pool.size⟩)[other]? = _
    simp only [Std.HashMap.getElem?_insertIfNew, Std.HashMap.mem_iff_isSome_getElem?,
      h.interned_eq, constants_withRead, idxOf?_concat, length_constants]
    show _ = Option.map (ConstantId.mk pool.tag) _
    by_cases heq : constant = other
    · subst heq
      cases pool.constants.idxOf? constant <;> simp
    · simp [heq]

/-- The second pass over some constants puts these behind the ones that were there. -/
theorem loaded_foldl_withRead (h : pool.Loaded) (added : List Constant) :
    (added.foldl withRead pool).Loaded ∧ (added.foldl withRead pool).tag = pool.tag
      ∧ (added.foldl withRead pool).constants = pool.constants ++ added := by
  induction added generalizing pool with
  | nil => exact ⟨h, rfl, (List.append_nil _).symm⟩
  | cons constant added ih =>
    obtain ⟨hloaded, htag, hconstants⟩ := ih (h.withRead constant)
    refine ⟨hloaded, htag, ?_⟩
    rw [List.foldl_cons, hconstants, constants_withRead, List.append_assoc, List.singleton_append]

@[simp] theorem tag_ofRead (tag : PoolTag) (constants : List Constant) :
    (ofRead tag constants).tag = tag :=
  (loaded_foldl_withRead (loaded_empty tag) constants).2.1

@[simp] theorem constants_ofRead (tag : PoolTag) (constants : List Constant) :
    (ofRead tag constants).constants = constants :=
  (loaded_foldl_withRead (loaded_empty tag) constants).2.2

@[simp] theorem fixed_ofRead (tag : PoolTag) (constants : List Constant) :
    (ofRead tag constants).fixed = constants.length := by
  have hsize := length_constants (ofRead tag constants)
  rw [constants_ofRead] at hsize
  exact hsize.symm

/-- No constant is marked when it is read. -/
theorem isPriorityAt_foldl_withRead (added : List Constant) (slot : Nat) :
    (added.foldl withRead pool).isPriorityAt slot = pool.isPriorityAt slot := by
  induction added generalizing pool with
  | nil => rfl
  | cons constant added ih => exact ih.trans (isPriorityAt_pushEntry pool constant slot)

/-- A pool that was read is in the order of the file. -/
theorem ranked_ofRead (tag : PoolTag) (constants : List Constant) :
    (ofRead tag constants).ranked = slotsOf tag constants := by
  have hranked := ranked_of_all_read (ofRead tag constants) rfl
  rw [tag_ofRead, constants_ofRead] at hranked
  exact hranked

/-- A pool of constants that were all read is valid. -/
theorem valid_ofRead (tag : PoolTag) (constants : List Constant) :
    (ofRead tag constants).Valid := by
  obtain ⟨hloaded, htag, hconstants⟩ := loaded_foldl_withRead (loaded_empty tag) constants
  refine ⟨?_, Nat.le_refl _, hloaded.interned_eq⟩
  rw [ranked_of_all_read (ofRead tag constants) rfl]
  exact hloaded.layout_holds

end Pool

namespace RawPool

variable {tag : PoolTag} {pool : Pool} {raw : RawPool}

/-- The second pass succeeds exactly if each constant can be resolved. -/
theorem foldlM_addResolved_iff {raws : List RawConstant} {later : Pool} :
    raws.foldlM raw.addResolved pool = .ok later ↔ ∃ constants : List Constant,
      List.Forall₂ (fun constant resolved =>
        constant.resolve (raw.lookup pool.tag) = .ok resolved) raws constants
      ∧ later = constants.foldl Pool.withRead pool := by
  induction raws generalizing pool with
  | nil =>
    rw [List.foldlM_nil, pure_eq_ok_iff]
    constructor
    · rintro rfl
      exact ⟨[], .nil, rfl⟩
    · rintro ⟨_, _ | _, rfl⟩
      rfl
  | cons constant raws ih =>
    simp only [List.foldlM_cons, addResolved, bind_eq_ok_iff, pure_eq_ok_iff]
    constructor
    · rintro ⟨_, ⟨resolved, hresolved, rfl⟩, hothers⟩
      obtain ⟨constants, hconstants, rfl⟩ := ih.mp hothers
      exact ⟨resolved :: constants, .cons hresolved hconstants, rfl⟩
    · rintro ⟨_, _ | ⟨hresolved, hconstants⟩, rfl⟩
      exact ⟨_, ⟨_, hresolved, rfl⟩, ih.mpr ⟨_, hconstants, rfl⟩⟩

/-- The pool of the second pass holds what the constants of the first are resolved to. -/
theorem resolve_eq_ok_iff : raw.resolve tag = .ok pool ↔ ∃ constants : List Constant,
    List.Forall₂ (fun constant resolved => constant.resolve (raw.lookup tag) = .ok resolved)
      raw.constants.toList constants
    ∧ pool = Pool.ofRead tag constants := by
  simp only [resolve, bind_eq_ok_iff, pure_eq_ok_iff, foldlM_addResolved_iff]
  constructor
  · rintro ⟨_, ⟨constants, hconstants, rfl⟩, rfl⟩
    exact ⟨constants, hconstants, rfl⟩
  · rintro ⟨constants, hconstants, rfl⟩
    exact ⟨_, ⟨constants, hconstants, rfl⟩, rfl⟩

end RawPool

/-! ## Reading a pool -/

namespace Pool

variable {tag : PoolTag} {pool : Pool} {input rest : Bytes} {notices : List Notice}

/-- Raw constants that make up a pool, and what they become. -/
structure Resolves (tag : PoolTag) (raws : List RawConstant) (constants : List Constant) :
    Prop where
  canonical : ∀ constant ∈ raws, constant.Canonical
  room : 1 + totalWidth raws < 2 ^ 16
  resolved : List.Forall₂ (fun constant resolved =>
    constant.resolve ((RawPool.ofConstants raws).lookup tag) = .ok resolved) raws constants

/-- The constants take the same indices before and after their references are resolved. -/
theorem Resolves.totalWidth_take_eq {raws : List RawConstant} {constants : List Constant}
    (h : Resolves tag raws constants) (k : Nat) :
    totalWidth (constants.take k) = totalWidth (raws.take k) := by
  have hwidths := h.resolved.imp fun _ _ hresolved =>
    (RawConstant.tag_width_of_resolve hresolved).2.symm
  exact (Layout.totalWidth_eq_of_forall₂ (List.forall₂_take k hwidths)).symm

/-- Resolving references does not change how many indices the constants take. -/
theorem Resolves.totalWidth_eq {raws : List RawConstant} {constants : List Constant}
    (h : Resolves tag raws constants) : totalWidth constants = totalWidth raws := by
  have hwidths := h.resolved.imp fun _ _ hresolved =>
    (RawConstant.tag_width_of_resolve hresolved).2.symm
  exact (Layout.totalWidth_eq_of_forall₂ hwidths).symm

/-- A pool is read off the bytes of raw constants whose references can be resolved. -/
theorem reads_read_iff : (Pool.read tag).Reads input pool rest notices
    ↔ ∃ (raws : List RawConstant) (constants : List Constant), Resolves tag raws constants
      ∧ pool = ofRead tag constants
      ∧ input = BigEndian.encode 2 (1 + totalWidth raws) ++ RawPool.bytesOf raws ++ rest
      ∧ notices = RawPool.noticesOf 1 raws ++ [.readPool pool.size pool.interned.size] := by
  rw [Pool.read, Reader.reads_bind]
  constructor
  · rintro ⟨raw, _, _, _, hraw, hrest, rfl⟩
    obtain ⟨raws, hcanonical, hroom, rfl, rfl, rfl⟩ := RawPool.reads_read_iff.mp hraw
    obtain ⟨found, _, _, _, hfound, hlast, rfl⟩ := Reader.reads_bind.mp hrest
    obtain ⟨hresolve, rfl, rfl⟩ := Reader.reads_ofExcept.mp hfound
    obtain ⟨constants, hresolved, rfl⟩ := RawPool.resolve_eq_ok_iff.mp hresolve
    obtain ⟨_, _, _, _, hnote, hpure, rfl⟩ := Reader.reads_bind.mp hlast
    obtain ⟨rfl, rfl⟩ := Reader.reads_note.mp hnote
    obtain ⟨rfl, rfl, rfl⟩ := Reader.reads_pure.mp hpure
    rw [RawPool.constants_ofConstants] at hresolved
    exact ⟨raws, constants, ⟨hcanonical, hroom, hresolved⟩, rfl, rfl, by simp⟩
  · rintro ⟨raws, constants, ⟨hcanonical, hroom, hresolved⟩, rfl, rfl, rfl⟩
    have hresolve : (RawPool.ofConstants raws).resolve tag = .ok (ofRead tag constants) := by
      refine RawPool.resolve_eq_ok_iff.mpr ⟨constants, ?_, rfl⟩
      rw [RawPool.constants_ofConstants]
      exact hresolved
    refine ⟨RawPool.ofConstants raws, rest, RawPool.noticesOf 1 raws, _,
      RawPool.reads_read_iff.mpr ⟨raws, hcanonical, hroom, rfl, rfl, rfl⟩,
      Reader.reads_bind.mpr ⟨ofRead tag constants, rest, [], _,
        Reader.reads_ofExcept.mpr ⟨hresolve, rfl, rfl⟩,
        Reader.reads_bind.mpr ⟨(), rest, _, [], Reader.reads_note.mpr ⟨rfl, rfl⟩,
          Reader.reads_pure.mpr ⟨rfl, rfl, rfl⟩, rfl⟩, rfl⟩, by simp⟩

end Pool

end ClassFormat
