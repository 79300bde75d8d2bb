import ClassFormat.Proofs.Pool.Reading
import ClassFormat.Proofs.Pool.Run
/-!
# Which constants a run marks

An operation marks a constant if it is one of two kinds and succeeds: marking the constant of a
handle, or adding a constant as priority. `markedBy` collects the handles that a run marks. No
constant is priority when a pool is made, be it empty or read from a file. So after a run exactly
the constants with these handles are priority, whatever else was done in between.

That decides on the order of the pool. `IsOrigin.ranked_run` gives it by the constants, how many of
them were read, and the set of the handles that were marked.
-/

namespace ClassFormat

namespace Pool

variable {pool later origin : Pool} {id : ConstantId}

/-! ## Where runs begin -/

/-- A pool as it is made: empty, or read from a file. -/
inductive IsOrigin : Pool → Prop where
  | empty (tag : PoolTag) : IsOrigin (Pool.empty tag)
  | read {tag : PoolTag} {input rest : Bytes} {notices : List Notice} {pool : Pool}
    (h : (Pool.read tag).Reads input pool rest notices) : IsOrigin pool

/-- All constants of a pool that was just made are read ones. -/
theorem IsOrigin.fixed_eq (h : origin.IsOrigin) : origin.fixed = origin.size := by
  cases h with
  | empty tag => rfl
  | read hread =>
    obtain ⟨raws, constants, -, rfl, -⟩ := reads_read_iff.mp hread
    rfl

/-- None of them is marked. -/
theorem IsOrigin.isPriorityAt_eq_false (h : origin.IsOrigin) (slot : Nat) :
    origin.isPriorityAt slot = false := by
  cases h with
  | empty tag => rfl
  | read hread =>
    obtain ⟨raws, constants, -, rfl, -⟩ := reads_read_iff.mp hread
    exact isPriorityAt_foldl_withRead constants slot

/-- Running operations one list after the other is running both lists at once. -/
theorem run_append (operations others : List Operation) (pool : Pool) :
    run (operations ++ others) pool = run others (run operations pool) :=
  List.foldl_append ..

/-- What a run leaves of a pool that can be reached can be reached. -/
theorem reachable_run (h : pool.Reachable) (operations : List Operation) :
    (run operations pool).Reachable := by
  induction operations generalizing pool with
  | nil => exact h
  | cons operation operations ih => exact ih (h.operate operation)

/-- A pool as it is made can be reached, without any operations. -/
theorem IsOrigin.reachable (h : origin.IsOrigin) : origin.Reachable := by
  cases h with
  | empty tag => exact .empty tag
  | read hread => exact .read hread

/-- The pools that can be reached are those that a run leaves of a pool as it was made. -/
theorem reachable_iff : pool.Reachable
    ↔ ∃ origin operations, IsOrigin origin ∧ pool = run operations origin := by
  constructor
  · intro h
    induction h with
    | empty tag => exact ⟨_, [], .empty tag, rfl⟩
    | read hread => exact ⟨_, [], .read hread, rfl⟩
    | operate operation _ ih =>
      obtain ⟨origin, operations, horigin, rfl⟩ := ih
      exact ⟨origin, operations ++ [operation], horigin,
        (run_append operations [operation] origin).symm⟩
  · rintro ⟨origin, operations, horigin, rfl⟩
    exact reachable_run horigin.reachable operations

/-- A run leaves the constants that were there in their slots. -/
theorem run_extends (operations : List Operation) (pool : Pool) :
    (run operations pool).Extends pool :=
  (changes_run operations pool).extends

/-! ## Marked handles -/

/-- The handle of the constant that an operation marks, if it is one that marks and succeeds. -/
def Operation.marked? (operation : Operation) (pool : Pool) : Option ConstantId :=
  if operation.isMarking then (operation.edit.apply pool).1.toOption else none

/-- The handles that some operations mark, one after another. -/
def markedBy : List Operation → Pool → List ConstantId
  | [], _ => []
  | operation :: operations, pool =>
    (operation.marked? pool).toList ++ markedBy operations (operation.after pool)

/-- Only putting constants behind the others leaves all marks as they are. -/
theorem isPriorityAt_of_added (h : Relation.ReflTransGen Added pool later) (slot : Nat) :
    later.isPriorityAt slot = pool.isPriorityAt slot := by
  induction h with
  | refl => rfl
  | tail _ hadded ih =>
    obtain ⟨constant, hnew⟩ := hadded
    exact (isPriorityAt_withNew slot).trans ih

/-- A free constant of the pool that needs no mark is marked already. -/
theorem isPriorityAt_of_not_unmarked (howns : pool.owns id = true)
    (h : ∀ constant, pool.entries[id.slot]? ≠ some ⟨constant, false⟩) :
    pool.isPriorityAt id.slot = true := by
  have hlt := (owns_iff.mp howns).2
  have hget : pool.entries[id.slot]? = some pool.entries[id.slot] := Array.getElem?_eq_getElem hlt
  rcases hentry : pool.entries[id.slot] with ⟨constant, isPriority⟩
  rw [hentry] at hget
  cases isPriority with
  | true =>
    rw [isPriorityAt, hget]
    rfl
  | false => exact absurd hget (h constant)

/-- Marking a handle marks its slot if it succeeds, and no other slot. -/
theorem isPriorityAt_setPriority (id : ConstantId) (pool : Pool) (slot : Nat) :
    ((setPriority id).apply pool).2.isPriorityAt slot = true ↔ pool.isPriorityAt slot = true
      ∨ ((setPriority id).apply pool).1 = .ok () ∧ id = ⟨pool.tag, slot⟩ := by
  rw [apply_setPriority]
  split
  · rename_i howns
    have hid : id = ⟨pool.tag, id.slot⟩ := by rw [← (owns_iff.mp howns).1]
    split
    · simp
    · split
      · rename_i constant hslot
        rw [isPriorityAt_withPriority hslot, Bool.or_eq_true, beq_iff_eq]
        refine or_congr_right ⟨?_, ?_⟩
        · rintro rfl
          exact ⟨rfl, hid⟩
        · rintro ⟨-, rfl⟩
          rfl
      · rename_i hmarked
        refine ⟨.inl, ?_⟩
        rintro (hpriority | ⟨-, rfl⟩)
        · exact hpriority
        · exact isPriorityAt_of_not_unmarked howns hmarked
  · simp

/-- Adding a constant as priority marks its slot if it succeeds, and no other slot. -/
theorem isPriorityAt_addPriority (constant : Constant) (pool : Pool) (slot : Nat) :
    ((addPriority constant).apply pool).2.isPriorityAt slot = true
      ↔ pool.isPriorityAt slot = true
        ∨ ((addPriority constant).apply pool).1 = .ok ⟨pool.tag, slot⟩ := by
  rw [addPriority, Edit.apply_bind]
  rcases hadd : (add constant).apply pool with ⟨cause | id, later⟩
  all_goals
    have hadded := (Only.add constant).steps hadd
    rw [← isPriorityAt_of_added hadded]
  · simp
  -- Adding has marked nothing, so the marks are those of marking what was added.
  · have htag := (changes_of_added hadded).extends.tag_eq
    have hmark := isPriorityAt_setPriority id later slot
    rw [htag] at hmark
    simp only [Edit.apply_bind]
    rcases hedit : (setPriority id).apply later with ⟨cause | value, last⟩ <;> rw [hedit] at hmark
    · simpa using hmark
    · simpa [Edit.apply_pure] using hmark

/-- Marking a handle answers that handle. -/
theorem apply_edit_setPriority (id : ConstantId) (pool : Pool) :
    (Operation.setPriority id).edit.apply pool
      = (((setPriority id).apply pool).1.map fun _ => id, ((setPriority id).apply pool).2) := by
  rw [Operation.edit, ← bind_pure_comp, Edit.apply_bind]
  rcases (setPriority id).apply pool with ⟨cause | value, later⟩ <;> rfl

/-- After an operation the constants are priority that were before, and the one it marks. -/
theorem Operation.isPriorityAt_after (operation : Operation) (pool : Pool) (slot : Nat) :
    (operation.after pool).isPriorityAt slot = true
      ↔ pool.isPriorityAt slot = true ∨ operation.marked? pool = some ⟨pool.tag, slot⟩ := by
  cases hmarking : operation.isMarking with
  | false =>
    have hadded : Relation.ReflTransGen Added pool (operation.after pool) :=
      (Operation.only_added hmarking).steps rfl
    have hsame : (operation.after pool).isPriorityAt slot = pool.isPriorityAt slot :=
      isPriorityAt_of_added hadded slot
    simp [Operation.marked?, hmarking, hsame]
  | true =>
    cases operation with
    | addPriority constant =>
      refine (isPriorityAt_addPriority constant pool slot).trans (or_congr_right ?_)
      rw [Operation.marked?, if_pos hmarking, Operation.edit]
      cases ((Pool.addPriority constant).apply pool).1 <;> simp [Except.toOption]
    | setPriority id =>
      rw [Operation.after, Operation.marked?, if_pos hmarking, apply_edit_setPriority,
        isPriorityAt_setPriority]
      cases ((Pool.setPriority id).apply pool).1 <;> simp [Except.map, Except.toOption]
    | _ => cases hmarking

/-- After a run the constants are priority that were before, and those that it marks. -/
theorem isPriorityAt_run (operations : List Operation) (pool : Pool) (slot : Nat) :
    (run operations pool).isPriorityAt slot = true
      ↔ pool.isPriorityAt slot = true ∨ ⟨pool.tag, slot⟩ ∈ markedBy operations pool := by
  induction operations generalizing pool with
  | nil => simp [run, markedBy]
  | cons operation operations ih =>
    have htag := (changes_after operation pool).extends.tag_eq
    show (run operations (operation.after pool)).isPriorityAt slot = true ↔ _
    rw [ih, operation.isPriorityAt_after, htag, markedBy, List.mem_append, Option.mem_toList,
      or_assoc]

/-! ## The order that follows -/

/-- The order depends on the constants, how many of them were read, and which ones are priority. -/
theorem ranked_congr {other : Pool} (htag : other.tag = pool.tag)
    (hfixed : other.fixed = pool.fixed) (hconstants : other.constants = pool.constants)
    (hpriority : ∀ slot, other.isPriorityAt slot = pool.isPriorityAt slot) :
    other.ranked = pool.ranked := by
  simp only [ranked_eq, htag, hfixed, hconstants, hpriority]

/-- **The order of a pool.** What was read comes first as it was in the file. Of the constants that
were added those that the run marked come before the others, each group as they were added. -/
theorem IsOrigin.ranked_run (h : origin.IsOrigin) (operations : List Operation) :
    (run operations origin).ranked = slotsOf origin.tag origin.constants
      ++ ((slotsOf origin.tag (run operations origin).constants).drop origin.size).filter
        (fun slot => slot.id ∈ markedBy operations origin)
      ++ ((slotsOf origin.tag (run operations origin).constants).drop origin.size).filter
        (fun slot => slot.id ∉ markedBy operations origin) := by
  have hextends := run_extends operations origin
  have hread : (slotsOf origin.tag (run operations origin).constants).take origin.size
      = slotsOf origin.tag origin.constants := by
    rw [← slotsOf_take, ← length_constants, ← List.prefix_iff_eq_take.mp hextends.constants_eq]
  have hmarked (slot : PoolSlot)
      (hslot : slot ∈ (slotsOf origin.tag (run operations origin).constants).drop origin.size) :
      (run operations origin).isPriorityAt slot.id.slot
        = decide (slot.id ∈ markedBy operations origin) := by
    have hid : (⟨origin.tag, slot.id.slot⟩ : ConstantId) = slot.id := by
      rw [← (le_slot_of_mem_drop hslot).2]
    rw [Bool.eq_iff_iff, decide_eq_true_iff, isPriorityAt_run, h.isPriorityAt_eq_false, hid]
    simp
  rw [ranked_eq, hextends.tag_eq, hextends.fixed_eq, h.fixed_eq, hread]
  congr 1
  · congr 1
    exact List.filter_congr hmarked
  · refine List.filter_congr fun slot hslot => ?_
    rw [hmarked slot hslot, decide_not]

/-! ## Marking several constants -/

/-- Marking succeeds exactly for a constant of the pool that was not read from a file. -/
theorem apply_setPriority_eq_ok_iff : ((setPriority id).apply pool).1 = .ok ()
    ↔ pool.owns id = true ∧ pool.fixed ≤ id.slot := by
  rw [apply_setPriority]
  split
  · rename_i howns
    split
    · rename_i hfixed
      simp [howns, Nat.not_le_of_lt hfixed]
    · rename_i hfree
      split <;> simp [howns, Nat.le_of_not_lt hfree]
  · rename_i hforeign
    simp [hforeign]

/-- Marking marks the handle it is asked to mark, if the pool gave it out and its constant was not
read. -/
theorem marked?_setPriority_eq_some_iff {other : ConstantId} :
    (Operation.setPriority id).marked? pool = some other
      ↔ id = other ∧ pool.owns id = true ∧ pool.fixed ≤ id.slot := by
  have hmarking : (Operation.setPriority id).isMarking = true := rfl
  rw [← apply_setPriority_eq_ok_iff, Operation.marked?, if_pos hmarking, apply_edit_setPriority]
  cases ((setPriority id).apply pool).1 <;> simp [Except.map, Except.toOption]

/-- Marking does not touch the constants. -/
theorem constants_after_setPriority (id : ConstantId) (pool : Pool) :
    ((Operation.setPriority id).after pool).constants = pool.constants := by
  rw [Operation.after, apply_edit_setPriority]
  rcases setPriority_cases id pool with hsame | ⟨constant, -, hslot, hmarked⟩
  · rw [hsame]
  · rw [hmarked, constants_withPriority hslot]

/-- If no constant was added, no handle was either. -/
theorem owns_eq_of_constants_eq (h : later.Extends pool)
    (hconstants : later.constants = pool.constants) (id : ConstantId) :
    later.owns id = pool.owns id := by
  rw [Bool.eq_iff_iff, owns_iff, owns_iff, h.tag_eq, ← length_constants, hconstants,
    length_constants]

/-- Marking some handles marks those of the pool whose constants were not read, and does not touch
the constants. -/
theorem run_setPriority (ids : List ConstantId) (pool : Pool) :
    (run (ids.map .setPriority) pool).constants = pool.constants
      ∧ ∀ id, id ∈ markedBy (ids.map .setPriority) pool
        ↔ id ∈ ids ∧ pool.owns id = true ∧ pool.fixed ≤ id.slot := by
  induction ids generalizing pool with
  | nil => exact ⟨rfl, by simp [markedBy]⟩
  | cons first ids ih =>
    have hconstants := constants_after_setPriority first pool
    have hextends := (changes_after (.setPriority first) pool).extends
    obtain ⟨hothers, hmarked⟩ := ih ((Operation.setPriority first).after pool)
    refine ⟨hothers.trans hconstants, fun id => ?_⟩
    -- The first one has not changed which handles can be marked.
    rw [List.map_cons, markedBy, List.mem_append, Option.mem_toList, hmarked,
      owns_eq_of_constants_eq hextends hconstants, hextends.fixed_eq,
      marked?_setPriority_eq_some_iff, List.mem_cons]
    constructor
    · rintro (⟨rfl, hfree⟩ | ⟨hid, hfree⟩)
      · exact ⟨.inl rfl, hfree⟩
      · exact ⟨.inr hid, hfree⟩
    · rintro ⟨rfl | hid, hfree⟩
      · exact .inl ⟨rfl, hfree⟩
      · exact .inr ⟨hid, hfree⟩

/-- The order depends on which constants are marked, not on how often or in which order. -/
theorem ranked_run_setPriority {ids others : List ConstantId} (hids : ∀ id, id ∈ ids ↔ id ∈ others)
    (pool : Pool) :
    (run (ids.map .setPriority) pool).ranked = (run (others.map .setPriority) pool).ranked := by
  have hextends := run_extends (ids.map .setPriority) pool
  have hother := run_extends (others.map .setPriority) pool
  obtain ⟨hconstants, hmarked⟩ := run_setPriority ids pool
  obtain ⟨hsame, hmarkedOther⟩ := run_setPriority others pool
  refine ranked_congr (hextends.tag_eq.trans hother.tag_eq.symm)
    (hextends.fixed_eq.trans hother.fixed_eq.symm) (hconstants.trans hsame.symm) fun slot => ?_
  rw [Bool.eq_iff_iff, isPriorityAt_run, isPriorityAt_run, hmarked, hmarkedOther, hids]

end Pool

end ClassFormat
