import ClassFormat.Pool.Indices
import ClassFormat.Proofs.Pool.Marking
/-!
# Handles and indices

A snapshot of a valid pool gives every constant the offset at which it stands, and looking up that
index finds the constant again. The snapshot is there exactly if all widths together leave room for
the count.

`Pool.IsOrigin.layout_exact` says all of that of any pool that operations can bring about, and how
the pool is laid out: that depends on the order in which the constants were added and on the set of
those that were marked.
-/

namespace ClassFormat

namespace Pool

open Layout (totalWidth place)

variable {pool origin : Pool} {indices : Indices} {id : ConstantId} {index : UInt16}

/-! ## Which pools are valid -/

/-- A pool without constants is valid. -/
theorem valid_empty (tag : PoolTag) : (Pool.empty tag).Valid where
  layout_holds := Layout.holds_startingAt 1
  fixed_le := Nat.le_refl 0
  interned_eq := by
    intro constant
    simp [Pool.empty, constants]

/-- Whatever operations make of a pool is valid. -/
theorem Reachable.valid (h : pool.Reachable) : pool.Valid := by
  induction h with
  | empty tag => exact valid_empty tag
  | read hread =>
    obtain ⟨raws, constants, -, rfl, -⟩ := reads_read_iff.mp hread
    exact valid_ofRead _ constants
  | operate operation _ ih => exact ih.changes (changes_after operation _)

/-! ## The table of indices -/

/-- A table of indices with the offsets of some elements entered. -/
def enter (table : Array UInt16) (elements : List (Nat × PoolSlot)) : Array UInt16 :=
  elements.foldl (fun table (index, element) =>
    table.setIfInBounds element.id.slot (UInt16.ofNat index)) table

/-- Entering offsets does not lengthen the table. -/
@[simp] theorem size_enter (table : Array UInt16) (elements : List (Nat × PoolSlot)) :
    (enter table elements).size = table.size := by
  induction elements generalizing table with
  | nil => rfl
  | cons element elements ih =>
    rw [enter, List.foldl_cons, ← enter, ih, Array.size_setIfInBounds]

/-- What is not among the elements keeps its index. -/
theorem getElem?_enter_of_ne {table : Array UInt16} {elements : List (Nat × PoolSlot)}
    {slot : Nat} (hslot : ∀ element ∈ elements, element.2.id.slot ≠ slot) :
    (enter table elements)[slot]? = table[slot]? := by
  induction elements generalizing table with
  | nil => rfl
  | cons element elements ih =>
    rw [List.forall_mem_cons] at hslot
    rw [enter, List.foldl_cons, ← enter, ih hslot.2, Array.getElem?_setIfInBounds_ne hslot.1]

/-- Each of some elements with different slots gets its offset. -/
theorem getElem?_enter {table : Array UInt16} {elements : List (Nat × PoolSlot)}
    (hdistinct : elements.Pairwise fun element other => element.2.id.slot ≠ other.2.id.slot)
    {offset : Nat} {element : PoolSlot} (hmem : (offset, element) ∈ elements)
    (hlt : element.id.slot < table.size) :
    (enter table elements)[element.id.slot]? = some (UInt16.ofNat offset) := by
  induction elements generalizing table with
  | nil => simp at hmem
  | cons first elements ih =>
    obtain ⟨hfirst, hothers⟩ := List.pairwise_cons.mp hdistinct
    rw [enter, List.foldl_cons, ← enter]
    rcases List.mem_cons.mp hmem with heq | hmem
    · subst heq
      rw [getElem?_enter_of_ne fun other hother => (hfirst other hother).symm,
        Array.getElem?_setIfInBounds_self_of_lt hlt]
    · exact ih hothers hmem (by rwa [Array.size_setIfInBounds])

/-- A snapshot can be taken exactly if the widths leave room for the count. -/
theorem Valid.resolve_eq (h : pool.Valid) :
    (totalWidth pool.constants ≤ 65534 → ∃ indices, pool.resolve = .ok indices
      ∧ indices.count.toNat = 1 + totalWidth pool.constants)
    ∧ (65534 < totalWidth pool.constants →
      pool.resolve = .error (.poolOverflow (totalWidth pool.constants))) := by
  have hstop : pool.layout.stop = 1 + totalWidth pool.constants := by
    rw [h.layout_holds.stop_eq, totalWidth_ranked]
  constructor
  · intro hle
    rw [resolve, if_pos (show _ < 65536 by omega)]
    refine ⟨_, rfl, ?_⟩
    rw [hstop, UInt16.toNat_ofNat_of_lt' (show _ < 2 ^ 16 by omega)]
  · intro hlt
    rw [resolve, if_neg (show ¬ _ < 65536 by omega), hstop, Nat.add_sub_cancel_left]

/-- A snapshot is refused exactly if the widths leave no room for the count. -/
theorem Valid.resolve_error_iff (h : pool.Valid) :
    (∃ slots, pool.resolve = .error (.poolOverflow slots))
      ↔ 65534 < totalWidth pool.constants := by
  constructor
  · rintro ⟨slots, hresolve⟩
    by_contra hle
    obtain ⟨indices, hok, -⟩ := h.resolve_eq.1 (Nat.le_of_not_lt hle)
    rw [hok] at hresolve
    cases hresolve
  · intro hlt
    exact ⟨_, h.resolve_eq.2 hlt⟩

/-- A snapshot has the indices of the handles with the tag of its pool that are in its table. -/
theorem indexOf_eq_ok_iff : indices.indexOf id = .ok index
    ↔ id.pool = indices.pool ∧ indices.indices[id.slot]? = some index := by
  rw [Indices.indexOf]
  cases indices.indices[id.slot]? with
  | none => simp
  | some found => by_cases htag : id.pool = indices.pool <;> simp [htag]

/-- What a snapshot says about a pool. -/
theorem resolve_eq_ok (hresolve : pool.resolve = .ok indices) :
    pool.layout.stop < 2 ^ 16 ∧ indices.pool = pool.tag
      ∧ indices.count = UInt16.ofNat pool.layout.stop
      ∧ indices.indices = enter (Array.replicate pool.size 0) pool.layout.toList := by
  rw [resolve] at hresolve
  split at hresolve
  · rename_i hroom
    cases hresolve
    exact ⟨hroom, rfl, rfl, rfl⟩
  · cases hresolve

/-- A snapshot holds the offset at which a constant stands, which fits an index. -/
theorem Valid.getElem?_indices (h : pool.Valid) (hresolve : pool.resolve = .ok indices)
    {offset : Nat} (hstands : pool.Stands id offset) :
    indices.indices[id.slot]? = some (UInt16.ofNat offset)
      ∧ (UInt16.ofNat offset).toNat = offset := by
  obtain ⟨hroom, -, -, hindices⟩ := resolve_eq_ok hresolve
  -- No two elements of the layout are about the same slot, so none is overwritten.
  have hdistinct : pool.layout.toList.Pairwise
      fun element other => element.2.id.slot ≠ other.2.id.slot := by
    have hslots := pool.ranked_slots_nodup
    rw [← Layout.map_snd_place 1 pool.ranked, ← h.layout_holds.toList_eq, List.map_map] at hslots
    exact List.pairwise_map.mp hslots
  have howns := h.exists_stands_iff.mp ⟨offset, hstands⟩
  obtain ⟨constant, hconstant⟩ := exists_constant_iff.mpr howns
  have hend := (h.stands_add_width_le hstands hconstant).2
  obtain ⟨slot, hmem, rfl⟩ := hstands
  have hsize : slot.id.slot < (Array.replicate pool.size (0 : UInt16)).size := by
    rw [Array.size_replicate]
    exact (owns_iff.mp howns).2
  rw [hindices, getElem?_enter hdistinct hmem hsize,
    UInt16.toNat_ofNat_of_lt' (show _ < 2 ^ 16 by omega)]
  exact ⟨rfl, rfl⟩

/-- In a snapshot a constant has the index at which it stands. -/
theorem Valid.indexOf_eq_ok_iff (h : pool.Valid) (hresolve : pool.resolve = .ok indices) :
    indices.indexOf id = .ok index ↔ pool.Stands id index.toNat := by
  obtain ⟨-, htag, -, hindices⟩ := resolve_eq_ok hresolve
  rw [Pool.indexOf_eq_ok_iff, htag]
  constructor
  · rintro ⟨hpool, hindex⟩
    have hslot := (Array.getElem?_eq_some_iff.mp hindex).1
    rw [hindices, size_enter, Array.size_replicate] at hslot
    obtain ⟨offset, hstands⟩ := h.exists_stands_iff.mpr (owns_iff.mpr ⟨hpool, hslot⟩)
    obtain ⟨hget, hoffset⟩ := h.getElem?_indices hresolve hstands
    rw [hget] at hindex
    rw [← Option.some.inj hindex, hoffset]
    exact hstands
  · intro hstands
    obtain ⟨hget, -⟩ := h.getElem?_indices hresolve hstands
    rw [UInt16.ofNat_toNat] at hget
    exact ⟨(owns_iff.mp (h.exists_stands_iff.mp ⟨_, hstands⟩)).1, hget⟩

/-! ## Handles and indices are inverse -/

/-- In a snapshot every constant has an index, and looking it up finds the constant. -/
theorem Valid.exists_index (h : pool.Valid) (hresolve : pool.resolve = .ok indices)
    (howns : pool.owns id = true) :
    ∃ index, indices.indexOf id = .ok index ∧ pool.idAt index = .ok id := by
  obtain ⟨offset, hstands⟩ := h.exists_stands_iff.mpr howns
  obtain ⟨constant, hconstant⟩ := exists_constant_iff.mpr howns
  have hend := (h.stands_add_width_le hstands hconstant).2
  have hroom := (resolve_eq_ok hresolve).1
  have hoffset : (UInt16.ofNat offset).toNat = offset :=
    UInt16.toNat_ofNat_of_lt' (show _ < 2 ^ 16 by omega)
  rw [← hoffset] at hstands
  exact ⟨_, (h.indexOf_eq_ok_iff hresolve).mpr hstands, h.idAt_eq_ok_iff.mpr hstands⟩

/-- In a snapshot, looking up an index and asking for the index of a handle are inverse. -/
theorem Valid.idAt_iff_indexOf (h : pool.Valid) (hresolve : pool.resolve = .ok indices) :
    pool.idAt index = .ok id ↔ indices.indexOf id = .ok index := by
  rw [h.idAt_eq_ok_iff, h.indexOf_eq_ok_iff hresolve]

/-- Only a `long` or a `double` takes two indices. -/
theorem width_cases (constant : Constant) :
    width constant = if constant.tag = .long ∨ constant.tag = .double then 2 else 1 := by
  cases constant <;> rfl

/-- Where no constant stands between the start and the count, there is the second index of one. -/
theorem Valid.exists_wide_of_not_stands (h : pool.Valid) (hresolve : pool.resolve = .ok indices)
    (hpos : 0 < index.toNat) (hlt : index.toNat < pool.layout.stop)
    (hnowhere : ∀ id, ¬ pool.Stands id index.toNat) :
    ∃ (id : ConstantId) (constant : Constant) (first : UInt16), pool.constant id = .ok constant
      ∧ (constant.tag = .long ∨ constant.tag = .double)
      ∧ indices.indexOf id = .ok first ∧ index.toNat = first.toNat + 1 := by
  have hroom := (resolve_eq_ok hresolve).1
  -- The offset is inside a constant, which has to be one of those that are two wide.
  rcases h.stands_or_inside hpos hlt with ⟨id, hstands⟩ | hinside
  · exact absurd hstands (hnowhere id)
  · obtain ⟨id, constant, first, hstands, hconstant, hlow, hhigh⟩ := hinside
    have hfirst : (UInt16.ofNat first).toNat = first :=
      UInt16.toNat_ofNat_of_lt' (show _ < 2 ^ 16 by omega)
    rw [width_cases] at hhigh
    split at hhigh
    · rename_i htag
      rw [← hfirst] at hstands
      exact ⟨id, constant, UInt16.ofNat first, hconstant, htag,
        (h.indexOf_eq_ok_iff hresolve).mpr hstands, by omega⟩
    · omega

/-- Looking up an index fails exactly where no constant stands. -/
theorem Valid.exists_idAt_error_iff (h : pool.Valid) :
    (∃ cause, pool.idAt index = .error cause) ↔ ∀ id, ¬ pool.Stands id index.toNat := by
  simp only [← h.idAt_eq_ok_iff]
  cases pool.idAt index with
  | ok id => simp
  | error cause => simp

/-- No constant is found exactly at index 0, at the count and behind it, and at the second index of
a `long` or `double`. -/
theorem Valid.idAt_error_iff (h : pool.Valid) (hresolve : pool.resolve = .ok indices) :
    (∃ cause, pool.idAt index = .error cause)
      ↔ index = 0 ∨ indices.count ≤ index ∨ ∃ (id : ConstantId) (constant : Constant)
        (first : UInt16), pool.constant id = .ok constant
        ∧ (constant.tag = .long ∨ constant.tag = .double)
        ∧ indices.indexOf id = .ok first ∧ index.toNat = first.toNat + 1 := by
  obtain ⟨hroom, -, hcount, -⟩ := resolve_eq_ok hresolve
  have hcount : indices.count.toNat = pool.layout.stop := by
    rw [hcount, UInt16.toNat_ofNat_of_lt' hroom]
  rw [h.exists_idAt_error_iff]
  constructor
  · intro hnowhere
    rcases Nat.eq_zero_or_pos index.toNat with hzero | hpos
    · exact .inl (UInt16.toNat_inj.mp hzero)
    rcases Nat.lt_or_ge index.toNat pool.layout.stop with hlt | hge
    · exact .inr (.inr (h.exists_wide_of_not_stands hresolve hpos hlt hnowhere))
    · exact .inr (.inl (UInt16.le_iff_toNat_le.mpr (by rw [hcount]; exact hge)))
  · intro hindex id hstands
    obtain ⟨constant, hconstant⟩ :=
      exists_constant_iff.mpr (h.exists_stands_iff.mp ⟨_, hstands⟩)
    obtain ⟨hpos, hend⟩ := h.stands_add_width_le hstands hconstant
    have hwidth := width_pos constant
    -- In each of the three cases a constant at the index would be outside, or inside another one.
    rcases hindex with rfl | hge | ⟨other, wide, first, hwide, htag, hfirst, hnext⟩
    · exact Nat.lt_irrefl 0 hpos
    · rw [UInt16.le_iff_toNat_le, hcount] at hge
      omega
    · have hother := (h.indexOf_eq_ok_iff hresolve).mp hfirst
      have htwo := width_cases wide
      rw [if_pos htag] at htwo
      exact h.not_stands_inside hother hwide (by omega) (by omega) id hstands

/-! ## The layout after a run -/

/-- Only the order decides on the layout. -/
theorem Valid.layout_eq {other : Pool} (h : pool.Valid) (hother : other.Valid)
    (hranked : other.ranked = pool.ranked) : other.layout = pool.layout := by
  have hholds := hother.layout_holds
  rw [hranked] at hholds
  exact hholds.unique h.layout_holds

/-- **The layout of a pool and the indices in it.** Operations of any kind, failing or not, are
applied to a pool that is empty or was just read. They only put constants behind the others, and
make those priority whose handles they mark, which succeeds for any constant that was not read.

What was read comes first in the layout, then the marked constants, then all others, each group in
the order in which it came into the pool. So two runs that add the same constants and mark the same
handles lay them out alike. The last part is about the indices that a snapshot gives out. -/
theorem IsOrigin.layout_exact (h : origin.IsOrigin) (operations : List Operation) :
    let pool := run operations origin
    let read := slotsOf origin.tag origin.constants
    let added := (slotsOf origin.tag pool.constants).drop origin.size
    let marked := markedBy operations origin
    (∀ earlier later, operations = earlier ++ later →
      (run earlier origin).constants <+: pool.constants)
    ∧ (∀ slot, pool.isPriorityAt slot = true ↔ ⟨origin.tag, slot⟩ ∈ marked)
    ∧ (∀ id, ((setPriority id).apply pool).1 = .ok ()
      ↔ pool.owns id = true ∧ origin.size ≤ id.slot)
    ∧ pool.layout.toList = place 1 (read ++ added.filter (fun slot => slot.id ∈ marked)
      ++ added.filter (fun slot => slot.id ∉ marked))
    ∧ (∀ others, (run others origin).constants = pool.constants →
        (∀ id, id ∈ markedBy others origin ↔ id ∈ marked) →
        (run others origin).layout = pool.layout)
    ∧ (∀ other : Pool, other.Reachable → other.tag = pool.tag → other.fixed = pool.fixed →
        other.constants = pool.constants →
        (∀ slot, other.isPriorityAt slot = pool.isPriorityAt slot) → other.layout = pool.layout)
    ∧ (∀ ids others : List ConstantId, (∀ id, id ∈ ids ↔ id ∈ others) →
        (run (ids.map .setPriority) pool).layout = (run (others.map .setPriority) pool).layout)
    ∧ ((∃ slots, pool.resolve = .error (.poolOverflow slots)) ↔ 65534 < totalWidth pool.constants)
    ∧ (totalWidth pool.constants ≤ 65534 → ∃ indices, pool.resolve = .ok indices)
    ∧ ∀ indices, pool.resolve = .ok indices →
      (∀ id, pool.owns id = true →
        ∃ index, indices.indexOf id = .ok index ∧ pool.idAt index = .ok id)
      ∧ (∀ index id, pool.idAt index = .ok id → indices.indexOf id = .ok index)
      ∧ ∀ index, (∃ cause, pool.idAt index = .error cause)
        ↔ index = 0 ∨ indices.count ≤ index ∨ ∃ (id : ConstantId) (constant : Constant)
          (first : UInt16), pool.constant id = .ok constant
          ∧ (constant.tag = .long ∨ constant.tag = .double)
          ∧ indices.indexOf id = .ok first ∧ index.toNat = first.toNat + 1 := by
  intro pool read added marked
  have hextends : pool.Extends origin := run_extends operations origin
  have hreachable : pool.Reachable := reachable_run h.reachable operations
  have hvalid := hreachable.valid
  have hranked : pool.ranked = _ := h.ranked_run operations
  refine ⟨fun earlier later heq => ?_, fun slot => ?_, fun id => ?_, ?_,
    fun others hconstants hmarked => ?_, fun other hother htag hfixed hconstants hpriority => ?_,
    fun ids others hids => ?_, hvalid.resolve_error_iff, fun hle => ?_, fun indices hresolve => ?_⟩
  · have hlater := run_extends later (run earlier origin)
    rw [← run_append, ← heq] at hlater
    exact hlater.constants_eq
  · simp [pool, marked, isPriorityAt_run, h.isPriorityAt_eq_false]
  · rw [apply_setPriority_eq_ok_iff, hextends.fixed_eq, h.fixed_eq]
  · rw [hvalid.layout_holds.toList_eq, hranked]
  · have hother := h.ranked_run others
    simp only [hconstants, hmarked] at hother
    exact hvalid.layout_eq (reachable_run h.reachable others).valid (hother.trans hranked.symm)
  · exact hvalid.layout_eq hother.valid (ranked_congr htag hfixed hconstants hpriority)
  · have hmarked := (reachable_run hreachable (ids.map .setPriority)).valid
    have hother := (reachable_run hreachable (others.map .setPriority)).valid
    exact hother.layout_eq hmarked (ranked_run_setPriority hids pool)
  · obtain ⟨indices, hok, -⟩ := hvalid.resolve_eq.1 hle
    exact ⟨indices, hok⟩
  · refine ⟨fun id howns => ?_, fun index id hid => ?_, fun index => ?_⟩
    · exact hvalid.exists_index hresolve howns
    · exact (hvalid.idAt_iff_indexOf hresolve).mp hid
    · exact hvalid.idAt_error_iff hresolve

/-- A `long` is read of its bytes. -/
theorem resolves_long : Resolves ⟨0⟩ [.leaf (.long 5)] [.long 5] :=
  ⟨List.forall_mem_singleton.mpr rfl, by decide, .cons rfl .nil⟩

/-- Two integers are put behind a `long` that was read, and the second one is marked. -/
theorem run_marking_second :
    run [.addInteger 1, .addInteger 2, .setPriority ⟨⟨0⟩, 2⟩] (ofRead ⟨0⟩ [.long 5])
      = (((ofRead ⟨0⟩ [.long 5]).withNew (.integer 1)).withNew (.integer 2)).withPriority 2
        (.integer 2)
    ∧ markedBy [.addInteger 1, .addInteger 2, .setPriority ⟨⟨0⟩, 2⟩] (ofRead ⟨0⟩ [.long 5])
      = [⟨⟨0⟩, 2⟩] := by
  let origin := ofRead ⟨0⟩ [.long 5]
  have hfirst : origin.interned[Constant.integer 1]? = none := by
    rw [(valid_ofRead ..).interned_eq, constants_ofRead]
    rfl
  have hvalid : (origin.withNew (.integer 1)).Valid := (valid_ofRead ..).withNew hfirst
  have hsecond : (origin.withNew (.integer 1)).interned[Constant.integer 2]? = none := by
    rw [hvalid.interned_eq, constants_withNew, constants_ofRead]
    rfl
  have hone : (Operation.addInteger 1).after origin = origin.withNew (.integer 1) :=
    congrArg Prod.snd (intern_of_new hfirst)
  have htwo : (Operation.addInteger 2).after (origin.withNew (.integer 1))
      = (origin.withNew (.integer 1)).withNew (.integer 2) :=
    congrArg Prod.snd (intern_of_new hsecond)
  have hmarked : ((Operation.setPriority ⟨⟨0⟩, 2⟩).marked?
      ((origin.withNew (.integer 1)).withNew (.integer 2))) = some ⟨⟨0⟩, 2⟩ :=
    marked?_setPriority_eq_some_iff.mpr ⟨rfl, rfl, by decide⟩
  constructor
  · rw [run, List.foldl_cons, List.foldl_cons, hone, htwo]
    rfl
  · simp only [markedBy]
    rw [hone, htwo, hmarked]
    rfl

/-- The marked integer is laid out before the one that was added earlier, and both behind the `long`
that was read. -/
theorem layout_exact_of_long :
    let origin := ofRead ⟨0⟩ [.long 5]
    let operations : List Operation := [.addInteger 1, .addInteger 2, .setPriority ⟨⟨0⟩, 2⟩]
    origin.IsOrigin ∧ markedBy operations origin = [⟨⟨0⟩, 2⟩]
    ∧ (run operations origin).layout.toList
      = [(1, ⟨⟨⟨0⟩, 0⟩, 2⟩), (3, ⟨⟨⟨0⟩, 2⟩, 1⟩), (4, ⟨⟨⟨0⟩, 1⟩, 1⟩)] := by
  intro origin operations
  have hread : (Pool.read ⟨0⟩).Reads _ origin [] _ :=
    reads_read_iff.mpr ⟨_, _, resolves_long, rfl, rfl, rfl⟩
  obtain ⟨hrun, hmarked⟩ := run_marking_second
  obtain ⟨-, -, -, hlayout, -⟩ := IsOrigin.layout_exact (.read hread) operations
  refine ⟨.read hread, hmarked, ?_⟩
  rw [hlayout, hmarked, hrun]
  rfl

end Pool

end ClassFormat
