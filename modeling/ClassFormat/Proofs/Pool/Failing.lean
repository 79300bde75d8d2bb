import ClassFormat.Proofs.Pool.Sharing
/-!
# Operations that fail

An operation that fails leaves the pool as it was: the same constants, found by the same handles,
marked or not as before, and laid out in the same places.

Most operations make all their checks before they change anything. Two do not. Adding a constant as
priority adds it, and then marks it. Marking refuses only what was read from a file, and that is
found when it is added, not put behind the others. Copying a constant adds the copies of what it
refers to before the copy itself. But a reference in a pool is to a constant of that pool, and
references come to an end, so a copy that fails has failed at the handle it was asked for.
-/

namespace ClassFormat

/-! ## Edits that fail without a change -/

/-- If the edit fails in a pool, it leaves that pool as it was. -/
def Edit.KeepsOnFailure {α : Type} (edit : Edit α) (pool : Pool) : Prop :=
  ∀ cause later, edit.apply pool = (.error cause, later) → later = pool

namespace Edit.KeepsOnFailure

variable {α β : Type} {edit : Edit α} {next : α → Edit β} {pool : Pool}

theorem of_ok {value : α} {later : Pool} (h : edit.apply pool = (.ok value, later)) :
    edit.KeepsOnFailure pool := by
  intro cause last hfail
  rw [h] at hfail
  cases hfail

/-- An edit that never changes the pool does not when it fails. -/
theorem of_same (h : (edit.apply pool).2 = pool) : edit.KeepsOnFailure pool := by
  intro cause later hfail
  rw [hfail] at h
  exact h

theorem lift (action : StateM Pool α) : (liftM action : Edit α).KeepsOnFailure pool := of_ok rfl

/-- What comes after an edit that changes nothing, as checks do, goes back to where it began. -/
theorem bind_of_same (hsame : (edit.apply pool).2 = pool)
    (hnext : ∀ value, (next value).KeepsOnFailure pool) : (edit >>= next).KeepsOnFailure pool := by
  intro cause later hfail
  rw [apply_bind] at hfail
  rcases hedit : edit.apply pool with ⟨other | value, middle⟩
  all_goals
    rw [hedit] at hfail hsame
    obtain rfl : middle = pool := hsame
  · exact (Prod.mk.inj hfail).2.symm
  · exact hnext value cause later hfail

/-- Turning the answer into something else does not make an edit fail. -/
theorem map (h : edit.KeepsOnFailure pool) (f : α → β) : (f <$> edit).KeepsOnFailure pool := by
  intro cause later hfail
  rcases hedit : edit.apply pool with ⟨other | value, last⟩
  all_goals rw [apply_map hedit] at hfail
  · obtain rfl : last = later := (Prod.mk.inj hfail).2
    exact h other last hedit
  · cases hfail

end Edit.KeepsOnFailure

namespace Pool

variable {source dest pool : Pool} {id : ConstantId}

/-! ## Adding and marking -/

/-- All references are checked before the constant is interned. -/
theorem keepsOnFailure_add (constant : Constant) : (add constant).KeepsOnFailure pool := by
  rcases add_cases constant pool with ⟨id, -, -, hfail⟩ | ⟨-, hadd⟩
  · exact .of_same (congrArg Prod.snd hfail)
  · exact .of_ok hadd

/-- The handle is checked before it is marked. -/
theorem keepsOnFailure_setPriority (id : ConstantId) : (setPriority id).KeepsOnFailure pool := by
  intro cause later hfail
  rw [apply_setPriority] at hfail
  split at hfail
  · split at hfail
    · exact (Prod.mk.inj hfail).2.symm
    · split at hfail
      all_goals cases hfail
  · exact (Prod.mk.inj hfail).2.symm

/-- What was read from a file is found where it is, and a constant that is put behind the others
can be marked. So nothing was added if marking fails. -/
theorem Valid.keepsOnFailure_addPriority (h : pool.Valid) (constant : Constant) :
    (addPriority constant).KeepsOnFailure pool := by
  rcases add_cases constant pool with ⟨id, -, -, hfail⟩ | ⟨-, hadd⟩
  · refine .of_same ?_
    rw [addPriority, Edit.apply_bind, hfail]
  · rcases h.intern_cases constant with ⟨found, hintern, -⟩ | ⟨-, hintern⟩
    · -- The constant was there, so it is for marking to fail without a change.
      rw [hintern] at hadd
      exact .bind_of_same (congrArg Prod.snd hadd) fun id => (keepsOnFailure_setPriority id).map _
    · -- The constant is new: it stands behind all that were read, and so marking succeeds.
      have hfree : (intern constant pool).2.fixed ≤ (intern constant pool).1.slot := by
        rw [hintern]
        exact h.fixed_le
      have hok := apply_setPriority_eq_ok_iff.mpr ⟨h.owns_intern constant, hfree⟩
      obtain ⟨last, hmark⟩ : ∃ last, (setPriority (intern constant pool).1).apply
          (intern constant pool).2 = (.ok (), last) := ⟨_, Prod.ext hok rfl⟩
      have hadded : (addPriority constant).apply pool = (.ok (intern constant pool).1, last) := by
        rw [addPriority, Edit.apply_bind_ok hadd, Edit.apply_bind_ok hmark, Edit.apply_pure]
      exact .of_ok hadded

/-- The reference is looked up and its kind checked before the handle is added. -/
theorem keepsOnFailure_addMethodHandle (kind : HandleKind) (reference : ConstantId) :
    (addMethodHandle kind reference).KeepsOnFailure pool := by
  refine .bind_of_same rfl fun found => .bind_of_same ?_ fun constant => ?_
  · rw [Edit.apply_ofExcept]
  · split
    · exact keepsOnFailure_add _
    · exact .of_same rfl

/-! ## Copying -/

/-- A handle of the source is copied, and another one is refused before anything is done. -/
theorem Grounded.keepsOnFailure_copy (h : source.Grounded) (hdest : dest.Valid) (id : ConstantId) :
    (copy source id).KeepsOnFailure dest := by
  by_cases howns : source.owns id = true
  · obtain ⟨copied, later, hcopy, -⟩ := h.copies howns dest hdest
    exact .of_ok hcopy
  · rw [Bool.not_eq_true] at howns
    refine .of_same ?_
    rw [apply_copy_foreign howns]

/-! ## All operations -/

/-- Whether a pool that an operation copies from was made empty or read, and then changed by
operations. -/
def Operation.CopiesReachable : Operation → Prop
  | copy source _ => source.Reachable
  | _ => True

/-- Every operation keeps the pool if it fails, provided a pool it copies from can be reached. -/
theorem Reachable.keepsOnFailure (h : pool.Reachable) {operation : Operation}
    (hsource : operation.CopiesReachable) : operation.edit.KeepsOnFailure pool := by
  cases operation with
  | add constant => exact keepsOnFailure_add constant
  | addPriority constant => exact h.valid.keepsOnFailure_addPriority constant
  | setPriority id => exact (keepsOnFailure_setPriority id).map _
  | copy source id => exact hsource.grounded.keepsOnFailure_copy h.valid id
  | addMethodHandle kind reference => exact keepsOnFailure_addMethodHandle kind reference
  | addFieldRef _ _ | addMethodRef _ _ | addInterfaceMethodRef _ _ | addDynamic _ _
  | addInvokeDynamic _ _ => exact keepsOnFailure_add _
  -- All others just intern constants, which does not fail.
  | _ => exact .lift _

/-- **Failed operations.** An operation on a pool that fails changes nothing of it: neither its
constants, nor by which handles they are found, nor which of them are priority, nor where they are
laid out. That goes for any handles that it is given, and for copying typed handles as well. -/
theorem Reachable.failed_unchanged (h : pool.Reachable) :
    (∀ operation : Operation, operation.CopiesReachable → operation.edit.KeepsOnFailure pool)
    ∧ ∀ source : Pool, source.Reachable →
      (∀ id, (copyUtf8 source id).KeepsOnFailure pool)
      ∧ (∀ id, (copyClass source id).KeepsOnFailure pool)
      ∧ ∀ id, (copyNameAndType source id).KeepsOnFailure pool := by
  refine ⟨fun operation hsource => h.keepsOnFailure hsource, fun source hsource => ?_⟩
  have hcopy := hsource.grounded.keepsOnFailure_copy h.valid
  exact ⟨fun id => (hcopy id.id).map _, fun id => (hcopy id.id).map _,
    fun id => (hcopy id.id).map _⟩

/-- A text that was read from a file is found, but cannot be made priority, and a handle of this
pool is not one of the pool that is copied from. -/
theorem failed_unchanged_of_named :
    let named := ofRead ⟨0⟩ [.utf8 "A", .classInfo ⟨⟨⟨0⟩, 0⟩⟩]
    let source := ofRead ⟨1⟩ [.utf8 "A", .utf8 "A", .classInfo ⟨⟨⟨1⟩, 1⟩⟩]
    (addPriority (.utf8 "A")).apply named = (.error (.fixedConstantIndex ⟨⟨0⟩, 0⟩), named)
    ∧ (copyClass source ⟨⟨⟨0⟩, 1⟩⟩).apply named = (.error (.foreignConstant ⟨⟨0⟩, 1⟩), named) := by
  intro named source
  have hnamed : named.Reachable := resolves_named.reachable
  have hsource : source.Reachable := resolves_repeated.reachable
  have hfirst : named.IsFirst (.utf8 "A") ⟨⟨0⟩, 0⟩ := ⟨rfl, fun _ _ => Nat.zero_le _⟩
  have hfixed : ((addPriority (.utf8 "A")).apply named).1
      = .error (.fixedConstantIndex ⟨⟨0⟩, 0⟩) := by
    rw [addPriority, Edit.apply_bind_ok (hfirst.apply_add hnamed.valid hnamed.grounded)]
    rfl
  have hforeign : ((copyClass source ⟨⟨⟨0⟩, 1⟩⟩).apply named).1
      = .error (.foreignConstant ⟨⟨0⟩, 1⟩) := rfl
  obtain ⟨hoperation, hcopy⟩ := Reachable.failed_unchanged hnamed
  obtain ⟨-, hclass, -⟩ := hcopy source hsource
  exact ⟨Prod.ext hfixed (hoperation (.addPriority (.utf8 "A")) trivial _ _ (Prod.ext hfixed rfl)),
    Prod.ext hforeign (hclass _ _ _ (Prod.ext hforeign rfl))⟩

end Pool

end ClassFormat
