import ClassFormat.Proofs.Pool.Growth
import Mathlib.Order.WellFounded
/-!
# Handles that say a kind

A handle on a text, on a class or on a name with a descriptor is a handle like any other, wrapped up
to say what kind its constant is of. Nothing in the handle makes this so. It is kept by whoever
gives such handles out: looking up checks the kind, adding gives handles on what was added, copying
keeps the kind, and the constants of a pool refer to constants of the kinds that they say.

A method handle refers to a handle without a kind, so nothing is asked of the kinds that method
handles refer to.
-/

namespace ClassFormat

/-- A handle that says what kind its constant is of. -/
inductive TypedId where
  | utf8 (name : Utf8Id)
  | classInfo (owner : ClassId)
  | nameAndType (member : NameAndTypeId)
deriving DecidableEq, Repr

namespace TypedId

/-- The handle without its kind. -/
def id : TypedId → ConstantId
  | utf8 name => name.id
  | classInfo owner => owner.id
  | nameAndType member => member.id

/-- Tag of the constants of its kind. -/
def tag : TypedId → ConstantTag
  | utf8 _ => .utf8
  | classInfo _ => .classInfo
  | nameAndType _ => .nameAndType

/-- Whether a handle is on a constant of a pool, and this is of the kind that the handle says. -/
def DenotesIn (handle : TypedId) (pool : Pool) : Prop :=
  ∃ constant, pool.constant handle.id = .ok constant ∧ constant.tag = handle.tag

/-- Copy the constant of a handle, with all that it refers to. The copy is said to be of the same
kind. -/
def copy (source : Pool) : TypedId → Edit TypedId
  | utf8 name => utf8 <$> Pool.copyUtf8 source name
  | classInfo owner => classInfo <$> Pool.copyClass source owner
  | nameAndType member => nameAndType <$> Pool.copyNameAndType source member

/-- The handle of the same kind on another constant. -/
def withId : TypedId → ConstantId → TypedId
  | utf8 _, id => utf8 ⟨id⟩
  | classInfo _, id => classInfo ⟨id⟩
  | nameAndType _, id => nameAndType ⟨id⟩

variable {handle : TypedId} {pool later : Pool} {other : ConstantId}

@[simp] theorem id_withId : (handle.withId other).id = other := by
  cases handle <;> rfl

@[simp] theorem tag_withId : (handle.withId other).tag = handle.tag := by
  cases handle <;> rfl

/-- The kind of a handle makes no difference to how its constant is copied. -/
theorem copy_eq (source : Pool) (handle : TypedId) :
    handle.copy source = handle.withId <$> Pool.copy source handle.id := by
  cases handle <;> exact Functor.map_map _ _ _

/-- A typed handle denotes something exactly if it leads to a constant of its kind. -/
theorem denotesIn_iff_leads : handle.DenotesIn pool ↔ pool.Leads [handle.tag] handle.id := by
  unfold DenotesIn Pool.Leads
  simp only [List.mem_singleton]

/-- What a handle denotes it denotes in any later state of the pool. -/
theorem DenotesIn.extends (h : handle.DenotesIn pool) (hextends : later.Extends pool) :
    handle.DenotesIn later :=
  denotesIn_iff_leads.mpr ((denotesIn_iff_leads.mp h).extends hextends)

/-- A pool's own handles have its tag. -/
theorem DenotesIn.pool_eq (h : handle.DenotesIn pool) : handle.id.pool = pool.tag := by
  obtain ⟨constant, hconstant, -⟩ := h
  exact (Pool.constant_eq_ok_iff.mp hconstant).1

end TypedId

/-- The handles of some kind in a constant. -/
def Constant.typedIds : Constant → List TypedId
  | utf8 _ | utf16 _ | integer _ | float _ | long _ | double _ | methodHandle _ _ => []
  | classInfo name | string name | methodType name | moduleInfo name | packageInfo name =>
    [.utf8 name]
  | fieldRef owner member | methodRef owner member | interfaceMethodRef owner member =>
    [.classInfo owner, .nameAndType member]
  | nameAndType name descriptor => [.utf8 name, .utf8 descriptor]
  | dynamic _ member | invokeDynamic _ member => [.nameAndType member]

/-- References are on the kinds they have to be on if this is so of the handles of some kind. -/
theorem Constant.refersAs_iff_typedIds {leads : List ConstantTag → ConstantId → Prop}
    {constant : Constant} (hkind : constant.tag ≠ .methodHandle) : constant.RefersAs leads
      ↔ ∀ handle ∈ constant.typedIds, leads [handle.tag] handle.id := by
  cases constant with
  | methodHandle kind reference => exact absurd rfl hkind
  | _ => simp [RefersAs, typedIds, TypedId.tag, TypedId.id]

/-- The constants whose references say what kind they are of. -/
def ConstantTag.SaysKinds (tag : ConstantTag) : Prop := tag ≠ .methodHandle

instance : DecidablePred ConstantTag.SaysKinds :=
  fun tag => inferInstanceAs (Decidable (tag ≠ .methodHandle))

namespace Pool

variable {pool : Pool} {constant : Constant} {id : ConstantId}

/-! ## Looking at a constant -/

/-- The handles found in a constant of a pool are on constants of the kinds they say. -/
theorem TypedFor.denotesIn_of_constant (h : pool.TypedFor ConstantTag.SaysKinds)
    (hconstant : pool.constant id = .ok constant) :
    ∀ handle ∈ constant.typedIds, handle.DenotesIn pool := by
  intro handle hhandle
  have hmem : constant ∈ pool.constants :=
    List.mem_of_getElem? (constant_eq_ok_iff.mp hconstant).2
  have hkind : constant.tag ≠ .methodHandle := by
    intro htag
    cases constant with
    | methodHandle kind reference => cases hhandle
    | _ => cases htag
  have hleads := (Constant.refersAs_iff_typedIds hkind).mp (h.refersAs constant hmem) handle hhandle
  exact TypedId.denotesIn_iff_leads.mpr (hleads.leads hkind)

/-- The constants that a constant refers to are there. -/
theorem TypedFor.exists_reference {kinds : ConstantTag → Prop} (h : pool.TypedFor kinds)
    (hconstant : pool.constant id = .ok constant) :
    ∀ reference ∈ constant.references, ∃ found, pool.constant reference = .ok found := by
  intro reference hreference
  have hmem : constant ∈ pool.constants :=
    List.mem_of_getElem? (constant_eq_ok_iff.mp hconstant).2
  exact exists_constant_iff.mpr (h.owns_references hmem reference hreference)

/-- Following references never leads back. -/
theorem Grounded.not_transGen_self (h : pool.Grounded) (id : ConstantId) :
    ¬ Relation.TransGen pool.RefersTo id id := by
  have hwf := h.wellFounded_refersTo.transGen
  exact hwf.irrefl.irrefl id

/-! ## Operations -/

/-- The handles of some kind that an operation is given. -/
def Operation.given : Operation → List TypedId
  | add constant | addPriority constant => constant.typedIds
  | addFieldRef owner member | addMethodRef owner member | addInterfaceMethodRef owner member =>
    [.classInfo owner, .nameAndType member]
  | addDynamic _ member | addInvokeDynamic _ member => [.nameAndType member]
  | _ => []

/-- The pool that an operation copies from. -/
def Operation.source? : Operation → Option Pool
  | copy source _ => some source
  | _ => none

/-- The handles of some kind that an operation gives out. -/
def Operation.issues (pool : Pool) : Operation → List TypedId
  | addUtf8 text => [.utf8 ((Pool.addUtf8 text).run pool).1]
  | addClass name => [.classInfo ((Pool.addClass name).run pool).1]
  | addNameAndType name descriptor =>
    [.nameAndType ((Pool.addNameAndType name descriptor).run pool).1]
  | _ => []

/-- It is enough to mind the handles that say a kind. -/
theorem Operation.mindsFor_of_given {operation : Operation}
    (hgiven : ∀ handle ∈ operation.given, pool.Keeps [handle.tag] handle.id)
    (hsource : ∀ source ∈ operation.source?, source.TypedFor ConstantTag.SaysKinds) :
    operation.MindsFor ConstantTag.SaysKinds pool := by
  have hrefers (constant : Constant)
      (h : ∀ handle ∈ constant.typedIds, pool.Keeps [handle.tag] handle.id)
      (hkind : constant.tag.SaysKinds) : constant.RefersAs pool.Keeps :=
    (Constant.refersAs_iff_typedIds hkind).mpr h
  cases operation with
  | add constant | addPriority constant => exact hrefers constant hgiven
  | addFieldRef owner member => exact hrefers (.fieldRef owner member) hgiven
  | addMethodRef owner member => exact hrefers (.methodRef owner member) hgiven
  | addInterfaceMethodRef owner member => exact hrefers (.interfaceMethodRef owner member) hgiven
  | addDynamic bootstrap member => exact hrefers (.dynamic bootstrap member) hgiven
  | addInvokeDynamic bootstrap member => exact hrefers (.invokeDynamic bootstrap member) hgiven
  | copy source id => exact (hsource source rfl).soundFor
  | _ => trivial

/-- The handles that an operation gives out are on constants of the kinds they say, in the pool that
it leaves. -/
theorem TypedFor.denotesIn_of_issues {kinds : ConstantTag → Prop} (h : pool.TypedFor kinds)
    (operation : Operation) :
    ∀ handle ∈ operation.issues pool, handle.DenotesIn (operation.after pool) := by
  cases operation with
  | addUtf8 text =>
    have hadded := (Leaves.addUtf8 h text).2.2
    exact List.forall_mem_singleton.mpr ⟨_, hadded, rfl⟩
  | addClass name =>
    have hadded := (Leaves.addClass h name).2.2
    refine List.forall_mem_singleton.mpr ?_
    obtain ⟨constant, hconstant, hname⟩ := bind_eq_ok_iff.mp hadded
    refine ⟨constant, hconstant, ?_⟩
    cases constant with
    | classInfo text => rfl
    | _ => cases hname
  | addNameAndType name descriptor =>
    have hadded := (Leaves.addNameAndType h name descriptor).2.2
    exact List.forall_mem_singleton.mpr (TypedId.denotesIn_iff_leads.mpr hadded)
  | _ => exact fun _ hhandle => nomatch hhandle

/-- Copying a handle of some kind changes the pool as copying its constant does. -/
theorem apply_copy (source pool : Pool) (handle : TypedId) :
    ((handle.copy source).apply pool).2 = (Operation.copy source handle.id).after pool := by
  rw [TypedId.copy_eq, ← bind_pure_comp, Edit.apply_bind]
  unfold Operation.after
  show _ = ((Pool.copy source handle.id).apply pool).2
  rcases (Pool.copy source handle.id).apply pool with ⟨cause | id, later⟩ <;> rfl

/-- A copy that is said to be of the kind of the original is. -/
theorem TypedFor.denotesIn_of_copy {source : Pool} {handle copied : TypedId}
    (h : pool.TypedFor ConstantTag.SaysKinds) (hsource : source.TypedFor ConstantTag.SaysKinds)
    (hkeeps : source.Keeps [handle.tag] handle.id)
    (hcopy : ((handle.copy source).apply pool).1 = .ok copied) :
    copied.DenotesIn ((handle.copy source).apply pool).2 := by
  have hleaves := Leaves.copyFrom hsource.soundFor h (source.size + 4) handle.id
  have hanswered : Answered _ ((Pool.copy source handle.id).apply pool).1
      ((Pool.copy source handle.id).apply pool).2 := hleaves.2.2
  rw [TypedId.copy_eq, ← bind_pure_comp, Edit.apply_bind] at hcopy ⊢
  rcases hresult : (Pool.copy source handle.id).apply pool with ⟨cause | id, later⟩
  · rw [hresult] at hcopy
    cases hcopy
  · rw [hresult] at hcopy hanswered
    cases hcopy
    have hleads := (hanswered id rfl True [handle.tag] fun _ => hkeeps).leads trivial
    rw [TypedId.denotesIn_iff_leads, TypedId.id_withId, TypedId.tag_withId]
    exact hleads

end Pool

end ClassFormat
