import Mathlib.Data.List.Nodup
import ClassFormat.Proofs.Pool.Copying
/-!
# Equal constants share a slot

The index of distinct constants gives the first slot of each (`Valid.interned_iff`). So adding a
constant that is there answers that slot and changes nothing, and adding one that is not there puts
it into one new slot.

Constants are compared by their references, not by what these mean. Still, in a pool without
repeated constants the two agree: by induction on what is meant, constants that mean the same have
the same references, so they are equal and stand in one slot (`Grounded.eq_of_means`). Repetitions
are never added. They can only be read.
-/

namespace ClassFormat

namespace Pool

variable {pool later : Pool} {constant : Constant} {id other : ConstantId}

/-! ## First slots -/

/-- The handle is that of the first slot with the constant. -/
structure IsFirst (pool : Pool) (constant : Constant) (id : ConstantId) : Prop where
  constant_eq : pool.constant id = .ok constant
  slot_le : ∀ other, pool.constant other = .ok constant → id.slot ≤ other.slot

/-- What is interned is the first slot of each constant. -/
theorem Valid.interned_iff (h : pool.Valid) :
    pool.interned[constant]? = some id ↔ pool.IsFirst constant id := by
  rw [h.interned_eq, Option.map_eq_some_iff]
  constructor
  · rintro ⟨slot, hslot, rfl⟩
    obtain ⟨hlt, heq, hbefore⟩ := List.idxOf?_eq_some_iff.mp hslot
    refine ⟨constant_eq_ok_iff.mpr ⟨rfl, List.getElem?_eq_some_iff.mpr ⟨hlt, heq⟩⟩, ?_⟩
    intro other hother
    have hget := (constant_eq_ok_iff.mp hother).2
    by_contra hless
    obtain ⟨hotherLt, hotherEq⟩ := List.getElem?_eq_some_iff.mp hget
    exact hbefore other.slot (Nat.lt_of_not_le hless) hotherEq
  · intro hfirst
    obtain ⟨htag, hget⟩ := constant_eq_ok_iff.mp hfirst.constant_eq
    obtain ⟨hlt, heq⟩ := List.getElem?_eq_some_iff.mp hget
    refine ⟨id.slot, List.idxOf?_eq_some_iff.mpr ⟨hlt, heq, ?_⟩, by rw [← htag]⟩
    intro slot hless hsame
    have hearlier : pool.constant ⟨pool.tag, slot⟩ = .ok constant :=
      constant_eq_ok_iff.mpr ⟨rfl, List.getElem?_eq_some_iff.mpr
        ⟨Nat.lt_trans hless hlt, hsame⟩⟩
    exact absurd (hfirst.slot_le _ hearlier) (Nat.not_le.mpr hless)

/-- What is not interned is not there. -/
theorem Valid.interned_eq_none_iff (h : pool.Valid) :
    pool.interned[constant]? = none ↔ ∀ id, pool.constant id ≠ .ok constant := by
  rw [h.interned_eq, Option.map_eq_none_iff, List.idxOf?_eq_none_iff]
  constructor
  · intro habsent id hconstant
    exact habsent (List.mem_of_getElem? (constant_eq_ok_iff.mp hconstant).2)
  · intro habsent hmem
    obtain ⟨slot, hget⟩ := List.mem_iff_getElem?.mp hmem
    exact habsent ⟨pool.tag, slot⟩ (constant_eq_ok_iff.mpr ⟨rfl, hget⟩)

/-- A constant that is there has a first slot. -/
theorem Valid.exists_isFirst (h : pool.Valid) (hconstant : pool.constant id = .ok constant) :
    ∃ first, pool.IsFirst constant first := by
  cases hfound : pool.interned[constant]? with
  | none => exact absurd hconstant (h.interned_eq_none_iff.mp hfound id)
  | some first => exact ⟨first, h.interned_iff.mp hfound⟩

/-! ## Adding -/

/-- Adding a constant that is there answers its first slot and does nothing. -/
theorem IsFirst.apply_add (hfirst : pool.IsFirst constant id) (hvalid : pool.Valid)
    (hgrounded : pool.Grounded) : (add constant).apply pool = (.ok id, pool) := by
  rw [Pool.apply_add (hgrounded.owns_references hfirst.constant_eq), intern,
    hvalid.interned_iff.mpr hfirst]

/-- Adding a constant that is not there puts it into a new slot. -/
theorem Valid.apply_add_of_absent (h : pool.Valid)
    (habsent : ∀ id, pool.constant id ≠ .ok constant)
    (howns : ∀ reference ∈ constant.references, pool.owns reference = true) :
    (add constant).apply pool = (.ok ⟨pool.tag, pool.size⟩, pool.withNew constant) := by
  rw [apply_add howns, intern_of_new (h.interned_eq_none_iff.mpr habsent)]

/-! ## Pools without repeated constants -/

/-- Distinct constants stay distinct while a pool grows. -/
theorem Growth.nodup (hgrowth : Growth pool later) (hvalid : pool.Valid)
    (h : pool.constants.Nodup) : later.constants.Nodup := by
  cases hgrowth with
  | added constant hnew _ =>
    rw [constants_withNew, List.nodup_append]
    refine ⟨h, List.nodup_singleton constant, ?_⟩
    rintro found hfound _ hsame rfl
    obtain rfl := List.mem_singleton.mp hsame
    obtain ⟨slot, hget⟩ := List.mem_iff_getElem?.mp hfound
    exact hvalid.interned_eq_none_iff.mp hnew ⟨pool.tag, slot⟩
      (constant_eq_ok_iff.mpr ⟨rfl, hget⟩)
  | marked slot constant _ hslot =>
    rw [constants_withPriority hslot]
    exact h

/-- What was read stands in front, now and later. -/
theorem Extends.take_fixed_eq (h : later.Extends pool) (hvalid : pool.Valid) :
    later.constants.take later.fixed = pool.constants.take pool.fixed := by
  obtain ⟨added, hadded⟩ := h.constants_eq
  rw [h.fixed_eq, ← hadded, List.take_append_of_le_length]
  rw [length_constants]
  exact hvalid.fixed_le

/-- If no constant was read twice, none is there twice. -/
theorem Reachable.nodup (h : pool.Reachable) :
    (pool.constants.take pool.fixed).Nodup → pool.constants.Nodup := by
  refine h.induction_growth
    (P := fun pool => (pool.constants.take pool.fixed).Nodup → pool.constants.Nodup)
    (fun _ _ => List.nodup_nil) ?_ ?_
  · intro tag raws constants _ hread
    rw [fixed_ofRead, constants_ofRead, List.take_length] at hread
    rwa [constants_ofRead]
  · intro pool later hvalid ih hgrowth hread
    rw [hgrowth.change.extends.take_fixed_eq hvalid] at hread
    exact hgrowth.nodup hvalid (ih hread)

/-- What a run makes of an empty pool can be reached. -/
theorem reachable_run_empty (tag : PoolTag) (operations : List Operation) :
    (run operations (Pool.empty tag)).Reachable :=
  reachable_run (.empty tag) operations

/-- In a pool that was made empty no constant is there twice. -/
theorem nodup_run_empty (tag : PoolTag) (operations : List Operation) :
    (run operations (Pool.empty tag)).constants.Nodup := by
  have hextends := (changes_run operations (Pool.empty tag)).extends
  refine (reachable_run_empty tag operations).nodup ?_
  rw [hextends.take_fixed_eq (valid_empty tag)]
  exact List.nodup_nil

/-- Without repetitions a constant leads back to its handle. -/
theorem eq_of_constant_eq (hnodup : pool.constants.Nodup)
    (hconstant : pool.constant id = .ok constant) (hother : pool.constant other = .ok constant) :
    id = other := by
  obtain ⟨htag, hget⟩ := constant_eq_ok_iff.mp hconstant
  obtain ⟨hotherTag, hotherGet⟩ := constant_eq_ok_iff.mp hother
  have hslot : id.slot = other.slot :=
    (List.getElem?_inj (List.getElem?_eq_some_iff.mp hget).1 hnodup).mp (hget.trans hotherGet.symm)
  obtain ⟨idPool, idSlot⟩ := id
  obtain ⟨otherPool, otherSlot⟩ := other
  rw [ConstantId.mk.injEq]
  exact ⟨htag.trans hotherTag.symm, hslot⟩

/-- Without repetitions handles with the same meaning are the same. -/
theorem eq_of_means (hnodup : pool.constants.Nodup) {meaning : Meaning}
    (hmeans : pool.Means id meaning) (hother : pool.Means other meaning) : id = other := by
  induction meaning using Meaning.partsInduction generalizing id other with
  | _ blank parts ih =>
    obtain ⟨constant, found, hconstant, hmeaning, hparts⟩ := hmeans.exists_parts
    cases hmeaning
    obtain ⟨otherConstant, others, hotherConstant, hmeaning, hothers⟩ := hother.exists_parts
    obtain ⟨hblank, rfl⟩ := Meaning.of.inj hmeaning
    -- The references mean the same one by one, and so are the same.
    have hreferences : constant.references = otherConstant.references := by
      rw [← List.forall₂_eq_eq_eq]
      exact forall₂_of_common hparts.flip hothers.flip fun part hpart _ _ hfirst hsecond =>
        ih part hpart hfirst hsecond
    obtain rfl := Constant.eq_of_blank_eq hblank hreferences
    exact eq_of_constant_eq hnodup hconstant hotherConstant

/-! ## Interning -/

/-- **Interning.** In every pool that operations make: a constant that is there is interned at its
first slot, and adding it answers that slot and does nothing; a constant that is not there, if it
refers to constants of the pool, is added in exactly one new slot; and what a handle stands for
never changes. If the pool was made empty, each handle means one thing, and two handles are equal
exactly if they mean the same. -/
theorem Reachable.interning_exact (h : pool.Reachable) :
    (∀ id constant, pool.constant id = .ok constant → ∃ first, pool.IsFirst constant first
      ∧ pool.interned[constant]? = some first
      ∧ (add constant).apply pool = (.ok first, pool))
    ∧ (∀ constant, (∀ id, pool.constant id ≠ .ok constant) →
      (∀ reference ∈ constant.references, pool.owns reference = true) →
      ∃ later, (add constant).apply pool = (.ok ⟨pool.tag, pool.size⟩, later)
        ∧ later.constants = pool.constants ++ [constant])
    ∧ (∀ operations id constant, pool.constant id = .ok constant →
      (run operations pool).constant id = .ok constant)
    ∧ ∀ tag operations, pool = run operations (Pool.empty tag) →
      ∀ id other, pool.owns id = true → pool.owns other = true →
      ∃ meaning otherMeaning, (∀ found, pool.Means id found ↔ found = meaning)
        ∧ (∀ found, pool.Means other found ↔ found = otherMeaning)
        ∧ (id = other ↔ meaning = otherMeaning) := by
  have hvalid := h.valid
  have hgrounded := h.grounded
  refine ⟨fun id constant hconstant => ?_, fun constant habsent howns => ?_, ?_, ?_⟩
  · obtain ⟨first, hfirst⟩ := hvalid.exists_isFirst hconstant
    exact ⟨first, hfirst, hvalid.interned_iff.mpr hfirst, hfirst.apply_add hvalid hgrounded⟩
  · exact ⟨_, hvalid.apply_add_of_absent habsent howns, constants_withNew⟩
  · intro operations id constant hconstant
    exact (changes_run operations pool).extends.constant_eq hconstant
  · rintro tag operations rfl id other howns hotherOwns
    obtain ⟨meaning, hmeaning⟩ := hgrounded.exists_means howns
    obtain ⟨otherMeaning, hotherMeaning⟩ := hgrounded.exists_means hotherOwns
    refine ⟨meaning, otherMeaning, fun _ => hgrounded.means_iff hmeaning,
      fun _ => hgrounded.means_iff hotherMeaning, ?_, ?_⟩
    · rintro rfl
      exact hgrounded.means_unique hmeaning hotherMeaning
    · rintro rfl
      exact eq_of_means (nodup_run_empty tag operations) hmeaning hotherMeaning

/-- A name that was read twice, and the class of the second one. -/
theorem resolves_repeated : Resolves ⟨1⟩ [.leaf (.utf8 "A"), .leaf (.utf8 "A"), .classInfo 2]
    [.utf8 "A", .utf8 "A", .classInfo ⟨⟨⟨1⟩, 1⟩⟩] := by
  have hcanonical : (RawConstant.leaf (.utf8 "A")).Canonical := by
    show (Text.ModifiedUtf8.encode (Text.Utf16.ofString "A")).length < 2 ^ 16
    decide
  exact ⟨List.forall_mem_cons.mpr ⟨hcanonical, List.forall_mem_cons.mpr ⟨hcanonical,
    List.forall_mem_singleton.mpr trivial⟩⟩, by decide, .cons rfl (.cons rfl (.cons rfl .nil))⟩

/-- A name that was read twice is found in its first slot, and nothing is added. -/
theorem interning_exact_of_repeated :
    (add (.utf8 "A")).apply (ofRead ⟨1⟩ [.utf8 "A", .utf8 "A", .classInfo ⟨⟨⟨1⟩, 1⟩⟩])
      = (.ok ⟨⟨1⟩, 0⟩, ofRead ⟨1⟩ [.utf8 "A", .utf8 "A", .classInfo ⟨⟨⟨1⟩, 1⟩⟩]) := by
  obtain ⟨first, hfirst, -, hadd⟩ :=
    (Reachable.interning_exact resolves_repeated.reachable).1 ⟨⟨1⟩, 1⟩ (.utf8 "A") rfl
  have hslot : first.slot = 0 := Nat.le_zero.mp (hfirst.slot_le ⟨⟨1⟩, 0⟩ rfl)
  have htag : first.pool = ⟨1⟩ := (constant_eq_ok_iff.mp hfirst.constant_eq).1
  rw [hadd, show first = ⟨⟨1⟩, 0⟩ by rw [← hslot, ← htag]]

end Pool

end ClassFormat
