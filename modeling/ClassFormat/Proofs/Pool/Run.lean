import ClassFormat.Pool.Copy
import ClassFormat.Pool.Read
import ClassFormat.Proofs.Pool.Order
import ClassFormat.Proofs.Reading
import Mathlib.Logic.Relation
/-!
# Runs of operations on a pool

A pool is changed in two ways only: a constant that is not there yet is put behind the others, and a
constant that was not read from a file is marked as priority. `Change` is the relation of these two
steps, and every operation, failing or not, amounts to some steps. So what both steps keep holds of
every pool that is `Reachable`: one that was made empty or read, and then changed by operations.
-/

namespace ClassFormat

/-! ## What an edit does to a pool -/

namespace Edit

variable {α β : Type} {pool : Pool}

theorem apply_pure (value : α) : (pure value : Edit α).apply pool = (.ok value, pool) := rfl

theorem apply_throw (cause : Error) :
    (throw cause : Edit α).apply pool = (.error cause, pool) := rfl

theorem apply_get : (get : Edit Pool).apply pool = (.ok pool, pool) := rfl

/-- After an edit that fails nothing more is done. -/
theorem apply_bind (edit : Edit α) (next : α → Edit β) : (edit >>= next).apply pool
    = match edit.apply pool with
      | (.ok value, later) => (next value).apply later
      | (.error cause, later) => (.error cause, later) := by
  unfold apply
  rw [ExceptT.run_bind, StateT.run_bind]
  show (match StateT.run edit.run pool with
    | (result, later) => _) = _
  rcases StateT.run edit.run pool with ⟨cause | value, later⟩ <;> rfl

end Edit

namespace Pool

variable {pool later : Pool} {constant : Constant} {id : ConstantId}

/-! ## The two ways of changing a pool -/

/-- The pool with a constant behind the others. -/
def withNew (pool : Pool) (constant : Constant) : Pool :=
  { (pool.pushEntry constant).2 with
    interned := pool.interned.insert constant (pool.pushEntry constant).1 }

/-- The pool with the constant of a slot marked as priority. -/
def withPriority (pool : Pool) (slot : Nat) (constant : Constant) : Pool :=
  let marked := { pool with entries := pool.entries.setIfInBounds slot ⟨constant, true⟩ }
  { marked with layout := marked.layOut }

/-- One step of change. -/
inductive Change (pool : Pool) : Pool → Prop where
  | added (constant : Constant) (hnew : pool.interned[constant]? = none) :
    Change pool (pool.withNew constant)
  | marked (slot : Nat) (constant : Constant) (hfree : pool.fixed ≤ slot)
    (hslot : pool.entries[slot]? = some ⟨constant, false⟩) :
    Change pool (pool.withPriority slot constant)

/-- The step of change that marks nothing. -/
inductive Added (pool : Pool) : Pool → Prop where
  | intro (constant : Constant) (hnew : pool.interned[constant]? = none) :
    Added pool (pool.withNew constant)

/-- Putting a constant behind the others is one of the two changes. -/
theorem Added.change (h : Added pool later) : Change pool later := by
  obtain ⟨constant, hnew⟩ := h
  exact .added constant hnew

/-- Any number of steps. -/
def Changes : Pool → Pool → Prop := Relation.ReflTransGen Change

theorem changes_of_added (h : Relation.ReflTransGen Added pool later) : Changes pool later :=
  Relation.ReflTransGen.mono (fun _ _ => Added.change) _ _ h

/-- A later state of a pool: it has all constants that were there, in the same slots. -/
structure Extends (later pool : Pool) : Prop where
  tag_eq : later.tag = pool.tag
  fixed_eq : later.fixed = pool.fixed
  constants_eq : pool.constants <+: later.constants

/-! ### What a step keeps -/

@[simp] theorem tag_withNew : (pool.withNew constant).tag = pool.tag := rfl

@[simp] theorem fixed_withNew : (pool.withNew constant).fixed = pool.fixed := rfl

/-- Putting a constant behind the others does not touch these. -/
theorem constants_withNew : (pool.withNew constant).constants = pool.constants ++ [constant] := by
  simp [constants, withNew, pushEntry]

/-- Marking a constant changes no constant. -/
theorem constants_withPriority {slot : Nat} {isPriority : Bool}
    (hslot : pool.entries[slot]? = some ⟨constant, isPriority⟩) :
    (pool.withPriority slot constant).constants = pool.constants := by
  have hget : pool.constants[slot]? = some constant := by
    rw [constants, List.getElem?_map, Array.getElem?_toList, hslot]
    rfl
  show (pool.entries.setIfInBounds slot ⟨constant, true⟩).toList.map PoolEntry.constant = _
  rw [Array.toList_setIfInBounds, List.map_set, ← constants]
  obtain ⟨hlt, heq⟩ := List.getElem?_eq_some_iff.mp hget
  rw [← heq, List.set_getElem_self]

/-- Marking a slot marks that slot. -/
theorem isPriorityAt_withPriority {slot other : Nat} {isPriority : Bool}
    (hslot : pool.entries[slot]? = some ⟨constant, isPriority⟩) :
    (pool.withPriority slot constant).isPriorityAt other
      = (pool.isPriorityAt other || other == slot) := by
  have hlt := (Array.getElem?_eq_some_iff.mp hslot).1
  show ((pool.entries.setIfInBounds slot ⟨constant, true⟩)[other]?.any _) = _
  rw [isPriorityAt, Array.getElem?_setIfInBounds]
  by_cases h : slot = other
  · subst h
    simp [hlt]
  · have hne : ¬ other = slot := fun heq => h heq.symm
    simp [h, hne]

/-- A constant put behind the others is not marked, and the others stay as they are. -/
@[simp] theorem isPriorityAt_withNew (slot : Nat) :
    (pool.withNew constant).isPriorityAt slot = pool.isPriorityAt slot :=
  isPriorityAt_pushEntry pool constant slot

/-- A constant behind the others comes last in the order, too. -/
theorem ranked_withNew (hfixed : pool.fixed ≤ pool.size) :
    (pool.withNew constant).ranked
      = pool.ranked ++ [⟨⟨pool.tag, pool.size⟩, width constant⟩] := by
  -- It was neither read nor marked, so of the three groups it is in the last one.
  have hindexed : (pool.withNew constant).indexed
      = pool.indexed ++ [(⟨constant, false⟩, pool.size)] := by
    simp [indexed, withNew, pushEntry, List.zipIdx_append, size]
  have hread : isRead pool.fixed (⟨constant, false⟩, pool.size) = false := by
    simpa [isRead] using hfixed
  simp only [ranked, hindexed, fixed_withNew, List.filter_append, List.filter_cons, hread]
  simp [toSlot, withNew, pushEntry]

/-- Putting a new constant behind the others keeps the pool valid: the layout just grows, and the
constant is found in its slot. -/
theorem Valid.withNew (h : pool.Valid) (hnew : pool.interned[constant]? = none) :
    (pool.withNew constant).Valid where
  layout_holds := by
    rw [ranked_withNew h.fixed_le]
    exact h.layout_holds.push _
  fixed_le := by
    have hfixed := h.fixed_le
    rw [← length_constants, constants_withNew, List.length_append, length_constants]
    exact Nat.le_add_right_of_le hfixed
  interned_eq := by
    intro other
    rw [h.interned_eq, Option.map_eq_none_iff] at hnew
    show (pool.interned.insert constant ⟨pool.tag, pool.size⟩)[other]? = _
    rw [Std.HashMap.getElem?_insert, h.interned_eq, constants_withNew, idxOf?_concat]
    by_cases heq : constant = other
    · subst heq
      simp [hnew]
    · simp [heq]

/-- Marking a constant keeps the pool valid, since the pool is laid out anew. -/
theorem Valid.withPriority (h : pool.Valid) {slot : Nat} {isPriority : Bool}
    (hslot : pool.entries[slot]? = some ⟨constant, isPriority⟩) :
    (pool.withPriority slot constant).Valid where
  layout_holds := holds_layOut _
  fixed_le := by
    rw [← length_constants, constants_withPriority hslot, length_constants]
    exact h.fixed_le
  interned_eq := by
    intro other
    rw [constants_withPriority hslot]
    exact h.interned_eq other

/-- Neither of the two changes makes a valid pool invalid. -/
theorem Valid.change (h : pool.Valid) (hchange : Change pool later) : later.Valid := by
  cases hchange with
  | added constant hnew => exact h.withNew hnew
  | marked slot constant hfree hslot => exact h.withPriority hslot

theorem Extends.refl (pool : Pool) : pool.Extends pool := ⟨rfl, rfl, List.prefix_rfl⟩

theorem Extends.trans {last : Pool} (h : last.Extends later) (hbefore : later.Extends pool) :
    last.Extends pool where
  tag_eq := h.tag_eq.trans hbefore.tag_eq
  fixed_eq := h.fixed_eq.trans hbefore.fixed_eq
  constants_eq := hbefore.constants_eq.trans h.constants_eq

/-- What a handle stands for does not change. -/
theorem Extends.constant_eq (h : later.Extends pool) (hconstant : pool.constant id = .ok constant) :
    later.constant id = .ok constant := by
  obtain ⟨htag, hget⟩ := constant_eq_ok_iff.mp hconstant
  obtain ⟨added, hadded⟩ := h.constants_eq
  refine constant_eq_ok_iff.mpr ⟨by rw [htag, h.tag_eq], ?_⟩
  rw [← hadded, List.getElem?_append_left (List.getElem?_eq_some_iff.mp hget).1, hget]

/-- Either change leaves the constants that were there in their slots. -/
theorem Change.extends (h : Change pool later) : later.Extends pool := by
  cases h with
  | added constant hnew =>
    refine ⟨rfl, rfl, ?_⟩
    rw [constants_withNew]
    exact List.prefix_append ..
  | marked slot constant hfree hslot =>
    have hconstants := constants_withPriority hslot
    exact ⟨rfl, rfl, hconstants ▸ List.prefix_rfl⟩

/-! ### What steps keep -/

/-- After any number of changes the constants that were there are in their slots. -/
theorem Changes.extends (h : Changes pool later) : later.Extends pool := by
  induction h with
  | refl => exact .refl pool
  | tail _ hchange ih => exact hchange.extends.trans ih

/-- Changes keep a pool valid. -/
theorem Valid.changes (h : pool.Valid) (hchanges : Changes pool later) : later.Valid := by
  induction hchanges with
  | refl => exact h
  | tail _ hchange ih => exact ih.change hchange

/-- A handle that a pool gave out is one of any later state of it. -/
theorem Extends.owns_eq (h : later.Extends pool) (howns : pool.owns id = true) :
    later.owns id = true := by
  obtain ⟨constant, hconstant⟩ := exists_constant_iff.mpr howns
  exact exists_constant_iff.mp ⟨constant, h.constant_eq hconstant⟩

/-! ## Interning a constant -/

/-- A constant that is not found gets the next slot. -/
theorem intern_of_new (hnew : pool.interned[constant]? = none) :
    intern constant pool = (⟨pool.tag, pool.size⟩, pool.withNew constant) := by
  rw [intern, hnew]
  rfl

/-- The next handle leads to the constant that was put behind the others. -/
theorem constant_withNew :
    (pool.withNew constant).constant ⟨pool.tag, pool.size⟩ = .ok constant := by
  rw [constant_eq_ok_iff, constants_withNew, ← length_constants]
  exact ⟨rfl, List.getElem?_concat_length⟩

/-- Interning finds the constant where it is, or puts it behind the others. -/
theorem Valid.intern_cases (h : pool.Valid) (constant : Constant) :
    (∃ id, intern constant pool = (id, pool) ∧ pool.constant id = .ok constant)
      ∨ (pool.interned[constant]? = none
        ∧ intern constant pool = (⟨pool.tag, pool.size⟩, pool.withNew constant)) := by
  cases hfound : pool.interned[constant]? with
  | none => exact .inr ⟨rfl, intern_of_new hfound⟩
  | some id =>
    refine .inl ⟨id, by rw [intern, hfound], ?_⟩
    rw [h.interned_eq] at hfound
    obtain ⟨slot, hslot, rfl⟩ := Option.map_eq_some_iff.mp hfound
    obtain ⟨hlt, heq, -⟩ := List.idxOf?_eq_some_iff.mp hslot
    exact constant_eq_ok_iff.mpr ⟨rfl, List.getElem?_eq_some_iff.mpr ⟨hlt, heq⟩⟩

/-- The handle that interning gives out is one of the pool it leaves. -/
theorem Valid.owns_intern (h : pool.Valid) (constant : Constant) :
    (intern constant pool).2.owns (intern constant pool).1 = true := by
  rcases h.intern_cases constant with ⟨id, hintern, hconstant⟩ | ⟨-, hintern⟩
  · rw [hintern]
    exact exists_constant_iff.mp ⟨constant, hconstant⟩
  · rw [hintern]
    exact exists_constant_iff.mp ⟨constant, constant_withNew⟩

/-- Only what is interned already leaves the pool as it is when it is interned. -/
theorem interned_of_intern (hintern : intern constant pool = (id, pool)) :
    pool.interned[constant]? = some id := by
  cases hfound : pool.interned[constant]? with
  | none =>
    rw [intern_of_new hfound] at hintern
    have hsize := congrArg List.length (congrArg constants (Prod.mk.inj hintern).2)
    rw [constants_withNew, List.length_append, List.length_singleton] at hsize
    omega
  | some other =>
    rw [intern, hfound] at hintern
    rw [(Prod.mk.inj hintern).1]

/-! ## Checking references, and marking a constant -/

/-- Checking a handle changes nothing, and refuses handles of other pools. -/
theorem apply_checkOwned (id : ConstantId) (pool : Pool) : (checkOwned id).apply pool
    = if pool.owns id then (.ok (), pool) else (.error (.foreignConstant id), pool) := by
  rw [checkOwned, Edit.apply_bind, Edit.apply_get]
  by_cases h : pool.owns id = true
  · simp [h, Edit.apply_pure]
  · simp [h, Edit.apply_throw]

/-- References are checked up to the first one that is not of the pool. -/
theorem forM_checkOwned_cases (ids : List ConstantId) (pool : Pool) :
    (∃ id ∈ ids, pool.owns id = false
      ∧ (ids.forM checkOwned).apply pool = (.error (.foreignConstant id), pool))
    ∨ (∀ id ∈ ids, pool.owns id = true) ∧ (ids.forM checkOwned).apply pool = (.ok (), pool) := by
  induction ids with
  | nil => exact .inr ⟨nofun, rfl⟩
  | cons id ids ih =>
    have hcons : (id :: ids).forM checkOwned = checkOwned id >>= fun _ => ids.forM checkOwned := rfl
    simp only [hcons, Edit.apply_bind, apply_checkOwned]
    by_cases howns : pool.owns id = true
    · simp only [howns, if_true]
      rcases ih with ⟨foreign, hmem, hforeign, hfail⟩ | ⟨hothers, hok⟩
      · exact .inl ⟨foreign, List.mem_cons_of_mem _ hmem, hforeign, hfail⟩
      · exact .inr ⟨List.forall_mem_cons.mpr ⟨howns, hothers⟩, hok⟩
    · simp only [howns]
      rw [Bool.not_eq_true] at howns
      exact .inl ⟨id, List.mem_cons_self, howns, rfl⟩

/-- Adding a constant is refused before anything is done, or the constant is interned. -/
theorem add_cases (constant : Constant) (pool : Pool) :
    (∃ id ∈ constant.references, pool.owns id = false
      ∧ (add constant).apply pool = (.error (.foreignConstant id), pool))
    ∨ (∀ id ∈ constant.references, pool.owns id = true)
      ∧ (add constant).apply pool
        = (.ok (intern constant pool).1, (intern constant pool).2) := by
  rw [add, Edit.apply_bind]
  rcases forM_checkOwned_cases constant.references pool with
    ⟨id, hmem, hforeign, hfail⟩ | ⟨howns, hok⟩
  · rw [hfail]
    exact .inl ⟨id, hmem, hforeign, rfl⟩
  · rw [hok]
    exact .inr ⟨howns, rfl⟩

/-- Marking refuses a handle of another pool and a constant read from a file, and does nothing to a
constant that is marked. -/
theorem apply_setPriority (id : ConstantId) (pool : Pool) : (setPriority id).apply pool
    = if pool.owns id then
        if id.slot < pool.fixed then (.error (.fixedConstantIndex id), pool)
        else match pool.entries[id.slot]? with
          | some ⟨constant, false⟩ => (.ok (), pool.withPriority id.slot constant)
          | _ => (.ok (), pool)
      else (.error (.foreignConstant id), pool) := by
  rw [setPriority, Edit.apply_bind, apply_checkOwned]
  by_cases howns : pool.owns id = true
  · by_cases hfixed : id.slot < pool.fixed
    · simp [howns, hfixed, Edit.apply_bind, Edit.apply_get, Edit.apply_throw]
    · simp only [howns, hfixed, Edit.apply_bind, Edit.apply_get, if_true, if_false]
      rcases pool.entries[id.slot]? with _ | ⟨constant, _ | _⟩ <;> rfl
  · simp [howns]

/-- Marking marks the constant, or leaves the pool as it is: the handle is refused, or the constant
is marked already. -/
theorem setPriority_cases (id : ConstantId) (pool : Pool) :
    ((setPriority id).apply pool).2 = pool
      ∨ ∃ constant, pool.fixed ≤ id.slot ∧ pool.entries[id.slot]? = some ⟨constant, false⟩
        ∧ ((setPriority id).apply pool).2 = pool.withPriority id.slot constant := by
  rw [apply_setPriority]
  by_cases howns : pool.owns id = true
  · by_cases hfixed : id.slot < pool.fixed
    · rw [if_pos howns, if_pos hfixed]
      exact .inl rfl
    · rw [if_pos howns, if_neg hfixed]
      split
      · rename_i constant hslot
        exact .inr ⟨constant, Nat.le_of_not_lt hfixed, hslot, rfl⟩
      · exact .inl rfl
  · rw [if_neg howns]
    exact .inl rfl

/-! ## Actions that change a pool step by step -/

/-- Whatever an action answers, the pool it leaves is some steps of the given kind away. -/
def Only {α : Type} (step : Pool → Pool → Prop) (action : StateM Pool α) : Prop :=
  ∀ pool, Relation.ReflTransGen step pool (action.run pool).2

namespace Only

variable {α β : Type} {step other : Pool → Pool → Prop}

/-- Steps of one kind may be taken for steps of another. -/
theorem mono {action : StateM Pool α} (h : Only step action)
    (hstep : ∀ pool later, step pool later → other pool later) : Only other action :=
  fun pool => Relation.ReflTransGen.mono hstep _ _ (h pool)

/-- The pool that an edit leaves is some steps away from the one it was applied to. -/
theorem steps {edit : Edit α} (h : Only step edit.run) {result : Except Error α}
    (hedit : edit.apply pool = (result, later)) : Relation.ReflTransGen step pool later := by
  have hsteps := h pool
  rwa [show (edit.run.run pool).2 = later from congrArg Prod.snd hedit] at hsteps

theorem pure (value : α) : Only step (Pure.pure value : StateM Pool α) :=
  fun _ => Relation.ReflTransGen.refl

theorem bind {action : StateM Pool α} {next : α → StateM Pool β} (h : Only step action)
    (hnext : ∀ value, Only step (next value)) : Only step (action >>= next) :=
  fun pool => (h pool).trans (hnext _ _)

theorem map {action : StateM Pool α} (f : α → β) (h : Only step action) :
    Only step (f <$> action) :=
  h

theorem throw (cause : Error) : Only step (MonadExcept.throw cause : Edit α).run :=
  fun _ => Relation.ReflTransGen.refl

theorem get : Only step (MonadState.get : Edit Pool).run :=
  fun _ => Relation.ReflTransGen.refl

theorem editPure (value : α) : Only step (Pure.pure value : Edit α).run :=
  fun _ => Relation.ReflTransGen.refl

/-- An edit that fails is not followed by the next one. -/
theorem editBind {edit : Edit α} {next : α → Edit β} (h : Only step edit.run)
    (hnext : ∀ value, Only step (next value).run) : Only step (edit >>= next).run := by
  rw [ExceptT.run_bind]
  refine bind h ?_
  rintro (cause | value)
  · exact pure _
  · exact hnext value

theorem editMap {edit : Edit α} (f : α → β) (h : Only step edit.run) :
    Only step (f <$> edit).run := by
  rw [← bind_pure_comp]
  exact editBind h fun value => editPure _

theorem lift {action : StateM Pool α} (h : Only step action) :
    Only step (liftM action : Edit α).run :=
  map Except.ok h

theorem forM {ids : List ConstantId} {check : ConstantId → Edit Unit}
    (h : ∀ id, Only step (check id).run) : Only step (ids.forM check).run := by
  induction ids with
  | nil => exact editPure _
  | cons id ids ih => exact editBind (h id) fun _ => ih

/-- Replacing the references of a constant is replacing one after another. -/
theorem mapReferencesM {replace : ConstantId → Edit ConstantId}
    (h : ∀ id, Only step (replace id).run) (constant : Constant) :
    Only step (constant.mapReferencesM replace).run := by
  cases constant
  all_goals
    first
      | exact editPure _
      | exact editBind (h _) fun _ => editPure _
      | exact editBind (h _) fun _ => editBind (h _) fun _ => editPure _

/-- Checking a handle is no step. -/
theorem checkOwned (id : ConstantId) : Only step (Pool.checkOwned id).run := by
  refine editBind get fun pool => ?_
  split
  · exact editPure _
  · exact throw _

/-! ### Actions that add and mark nothing -/

/-- Interning a constant that is there is no step, and any other one is put behind. -/
theorem intern (constant : Constant) : Only Added (Pool.intern constant) := by
  intro pool
  show Relation.ReflTransGen Added pool (Pool.intern constant pool).2
  rw [Pool.intern]
  split
  · exact .refl
  · rename_i hnew
    exact .single (.intro constant hnew)

/-- Checking the references of a constant is no step, so adding it is interning it. -/
theorem add (constant : Constant) : Only Added (Pool.add constant).run :=
  editBind (forM checkOwned) fun _ => lift (intern constant)

/-- Adding a text and then a constant that refers to it. -/
theorem addText {make : Utf8Id → Constant} (text : String) :
    Only Added (do Pool.intern (make (← addUtf8 text))) :=
  bind (map _ (intern _)) fun _ => intern _

/-- Adding two texts, and then the pair of them. -/
theorem addNameAndType (name descriptor : String) :
    Only Added (Pool.addNameAndType name descriptor) :=
  bind (map _ (intern _)) fun _ => bind (map _ (intern _)) fun _ => bind (intern _) fun _ => pure _

/-- Copying adds the copies of what a constant refers to, and then the copy of the constant. -/
theorem copyFrom (source : Pool) (depth : Nat) (id : ConstantId) :
    Only Added (Pool.copyFrom source depth id).run := by
  induction depth generalizing id with
  | zero => exact throw _
  | succ depth ih =>
    refine editBind ?_ fun constant => editBind (mapReferencesM ih constant) fun copy => add copy
    cases source.constant id with
    | ok constant => exact editPure constant
    | error cause => exact throw cause

/-- The kind of the reference is checked before the handle is added. -/
theorem addMethodHandle (kind : HandleKind) (reference : ConstantId) :
    Only Added (Pool.addMethodHandle kind reference).run := by
  refine editBind get fun pool => editBind ?_ fun constant => ?_
  · cases pool.constant reference with
    | ok constant => exact editPure constant
    | error cause => exact throw cause
  · split
    · exact add _
    · exact throw _

/-! ### Actions that mark -/

/-- Marking a handle is one step, or none if it is refused or marked already. -/
theorem setPriority (id : ConstantId) : Only Change (Pool.setPriority id).run := by
  intro pool
  show Changes pool ((Pool.setPriority id).apply pool).2
  rcases setPriority_cases id pool with hsame | ⟨constant, hfree, hslot, hmarked⟩
  · rw [hsame]
    exact .refl
  · rw [hmarked]
    exact .single (Change.marked id.slot constant hfree hslot)

/-- Adding a constant as priority is adding it and then marking it. -/
theorem addPriority (constant : Constant) : Only Change (Pool.addPriority constant).run :=
  editBind ((add constant).mono fun _ _ => Added.change) fun id =>
    editBind (setPriority id) fun _ => editPure id

end Only

/-- What can be asked of a pool. -/
inductive Operation where
  | add (constant : Constant)
  | addPriority (constant : Constant)
  | setPriority (id : ConstantId)
  | copy (source : Pool) (id : ConstantId)
  | addUtf8 (text : String)
  | addClass (name : String)
  | addString (text : String)
  | addInteger (value : Int32)
  | addFloat (bits : UInt32)
  | addLong (value : Int64)
  | addDouble (bits : UInt64)
  | addNameAndType (name descriptor : String)
  | addFieldRef (owner : ClassId) (member : NameAndTypeId)
  | addMethodRef (owner : ClassId) (member : NameAndTypeId)
  | addInterfaceMethodRef (owner : ClassId) (member : NameAndTypeId)
  | addMethodType (descriptor : String)
  | addMethodHandle (kind : HandleKind) (reference : ConstantId)
  | addDynamic (bootstrap : UInt16) (member : NameAndTypeId)
  | addInvokeDynamic (bootstrap : UInt16) (member : NameAndTypeId)
  | addModule (name : String)
  | addPackage (name : String)

/-- What an operation does to a pool, with the handle that it is about. -/
def Operation.edit : Operation → Edit ConstantId
  | add constant => Pool.add constant
  | addPriority constant => Pool.addPriority constant
  | setPriority id => (fun _ => id) <$> Pool.setPriority id
  | copy source id => Pool.copy source id
  | addUtf8 text => liftM (Utf8Id.id <$> Pool.addUtf8 text)
  | addClass name => liftM (ClassId.id <$> Pool.addClass name)
  | addString text => liftM (Pool.addString text)
  | addInteger value => liftM (Pool.addInteger value)
  | addFloat bits => liftM (Pool.addFloat bits)
  | addLong value => liftM (Pool.addLong value)
  | addDouble bits => liftM (Pool.addDouble bits)
  | addNameAndType name descriptor =>
    liftM (NameAndTypeId.id <$> Pool.addNameAndType name descriptor)
  | addFieldRef owner member => Pool.addFieldRef owner member
  | addMethodRef owner member => Pool.addMethodRef owner member
  | addInterfaceMethodRef owner member => Pool.addInterfaceMethodRef owner member
  | addMethodType descriptor => liftM (Pool.addMethodType descriptor)
  | addMethodHandle kind reference => Pool.addMethodHandle kind reference
  | addDynamic bootstrap member => Pool.addDynamic bootstrap member
  | addInvokeDynamic bootstrap member => Pool.addInvokeDynamic bootstrap member
  | addModule name => liftM (Pool.addModule name)
  | addPackage name => liftM (Pool.addPackage name)

/-- The pool that an operation leaves, whether it fails or not. -/
def Operation.after (operation : Operation) (pool : Pool) : Pool := (operation.edit.apply pool).2

/-- The pool that some operations leave, one after another. -/
def run (operations : List Operation) (pool : Pool) : Pool :=
  operations.foldl (fun pool operation => operation.after pool) pool

/-- A pool that was made empty or read, and then changed by operations. -/
inductive Reachable : Pool → Prop where
  | empty (tag : PoolTag) : Reachable (Pool.empty tag)
  | read {tag : PoolTag} {input rest : Bytes} {notices : List Notice} {pool : Pool}
    (h : (Pool.read tag).Reads input pool rest notices) : Reachable pool
  | operate {pool : Pool} (operation : Operation) (h : Reachable pool) :
    Reachable (operation.after pool)

/-- Whether an operation marks a constant, if it succeeds. -/
def Operation.isMarking : Operation → Bool
  | addPriority _ | setPriority _ => true
  | _ => false

/-- An operation that marks nothing just adds constants. -/
theorem Operation.only_added {operation : Operation} (h : operation.isMarking = false) :
    Only Added operation.edit.run := by
  cases operation with
  | addPriority _ | setPriority _ => cases h
  | add constant => exact .add constant
  | copy source id => exact .copyFrom source _ id
  | addUtf8 text => exact .lift (.map _ (.map _ (.intern _)))
  | addClass name => exact .lift (.map _ (.addText name))
  | addString text => exact .lift (.addText text)
  | addInteger value => exact .lift (.intern _)
  | addFloat bits => exact .lift (.intern _)
  | addLong value => exact .lift (.intern _)
  | addDouble bits => exact .lift (.intern _)
  | addNameAndType name descriptor => exact .lift (.map _ (.addNameAndType name descriptor))
  | addFieldRef owner member => exact .add _
  | addMethodRef owner member => exact .add _
  | addInterfaceMethodRef owner member => exact .add _
  | addMethodType descriptor => exact .lift (.addText descriptor)
  | addMethodHandle kind reference => exact .addMethodHandle kind reference
  | addDynamic bootstrap member => exact .add _
  | addInvokeDynamic bootstrap member => exact .add _
  | addModule name => exact .lift (.addText name)
  | addPackage name => exact .lift (.addText name)

/-- Every operation amounts to some steps. -/
theorem changes_after (operation : Operation) (pool : Pool) :
    Changes pool (operation.after pool) := by
  have honly : Only Change operation.edit.run := by
    cases hmarking : operation.isMarking with
    | false => exact (Operation.only_added hmarking).mono fun _ _ => Added.change
    | true =>
      cases operation with
      | addPriority constant => exact .addPriority constant
      | setPriority id => exact .editMap _ (.setPriority id)
      | _ => cases hmarking
  exact honly pool

/-- A run of operations amounts to some steps. -/
theorem changes_run (operations : List Operation) (pool : Pool) :
    Changes pool (run operations pool) := by
  induction operations generalizing pool with
  | nil => exact .refl
  | cons operation operations ih => exact (changes_after operation pool).trans (ih _)

end Pool

end ClassFormat
