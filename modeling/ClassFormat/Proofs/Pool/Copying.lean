import ClassFormat.Proofs.Pool.Meaning
/-!
# Copying preserves meaning

To copy a constant, the constants it refers to are copied first, and then the constant is added with
their copies for references. In a pool whose references come to an end this is a recursion that ends
(`Grounded.copy_eq`): the bound on its depth is never reached.

The other pool changes between the copies of the references, so each fact about an earlier copy has
to survive the later ones. `later.Includes pool` is what copying does to the other pool: constants
are put behind all that were there, and nothing else. `CopiedAs` is what is known of a copy, and it
survives that: the copy means what the constant means, and copying the constant again finds it.
-/

namespace ClassFormat

/-! ## Edits -/

namespace Edit

variable {α β : Type} {pool later : Pool}

/-- After an edit that succeeds the next one goes on with its answer. -/
theorem apply_bind_ok {edit : Edit α} {value : α} (h : edit.apply pool = (.ok value, later))
    (next : α → Edit β) : (edit >>= next).apply pool = (next value).apply later := by
  rw [apply_bind, h]

/-- Turning the answer into something else does not touch the pool. -/
theorem apply_map {edit : Edit α} {result : Except Error α} (h : edit.apply pool = (result, later))
    (f : α → β) : (f <$> edit).apply pool = (f <$> result, later) := by
  rw [← bind_pure_comp, apply_bind, h]
  cases result <;> rfl

/-- A result that is there already does not touch the pool. -/
theorem apply_ofExcept (result : Except Error α) :
    (liftM result : Edit α).apply pool = (result, pool) := by
  cases result <;> rfl

end Edit

namespace Pool

variable {source dest pool later : Pool} {constant : Constant} {id copied : ConstantId}

/-! ## Adding what is referred to by own handles -/

/-- A handle of another pool leads nowhere. -/
theorem constant_of_not_owns (hforeign : pool.owns id = false) :
    pool.constant id = .error (.foreignConstant id) := by
  cases hconstant : pool.constant id with
  | ok constant =>
    rw [exists_constant_iff.mp ⟨constant, hconstant⟩] at hforeign
    cases hforeign
  | error cause =>
    rw [constant] at hconstant
    split at hconstant
    · split at hconstant
      · cases hconstant
      · exact hconstant.symm
    · exact hconstant.symm

/-- A constant whose references are there is interned. -/
theorem apply_add (h : ∀ id ∈ constant.references, pool.owns id = true) :
    (add constant).apply pool = (.ok (intern constant pool).1, (intern constant pool).2) := by
  rcases add_cases constant pool with ⟨id, hmem, hforeign, -⟩ | ⟨-, hadd⟩
  · rw [h id hmem] at hforeign
    cases hforeign
  · exact hadd

/-! ## Pools with more behind -/

/-- A later state of a pool with nothing but constants added: none was marked, and in the order of
the pool the new ones are behind all that were there. -/
structure Includes (later pool : Pool) : Prop extends later.Extends pool where
  isPriorityAt_eq : ∀ slot < pool.size, later.isPriorityAt slot = pool.isPriorityAt slot
  ranked_prefix : pool.ranked <+: later.ranked

/-- A constant stands at one offset only. -/
theorem Valid.stands_unique (h : pool.Valid) {offset other : Nat} (hstands : pool.Stands id offset)
    (hother : pool.Stands id other) : offset = other := by
  obtain ⟨k, slot, hk, hid, rfl⟩ := h.stands_iff.mp hstands
  obtain ⟨j, second, hj, hsecond, rfl⟩ := h.stands_iff.mp hother
  have hslots (place : Nat) (entry : PoolSlot) (hget : pool.ranked[place]? = some entry)
      (hentry : entry.id = id) :
      (pool.ranked.map fun slot => slot.id.slot)[place]? = some id.slot := by
    rw [List.getElem?_map, hget, ← hentry]
    rfl
  have hfirst := hslots k slot hk hid
  have hkj : k = j := by
    have hlt := (List.getElem?_eq_some_iff.mp hfirst).1
    exact (List.getElem?_inj hlt pool.ranked_slots_nodup).mp
      (hfirst.trans (hslots j second hj hsecond).symm)
  rw [hkj]

namespace Includes

theorem refl (pool : Pool) : pool.Includes pool where
  toExtends := .refl pool
  isPriorityAt_eq _ _ := rfl
  ranked_prefix := List.prefix_rfl

/-- A pool that includes another one is not smaller. -/
theorem size_le (h : later.Includes pool) : pool.size ≤ later.size := by
  have hle := h.constants_eq.length_le
  rwa [length_constants, length_constants] at hle

theorem trans {last : Pool} (h : last.Includes later) (hbefore : later.Includes pool) :
    last.Includes pool where
  toExtends := h.toExtends.trans hbefore.toExtends
  isPriorityAt_eq slot hslot := by
    have hle := hbefore.size_le
    rw [h.isPriorityAt_eq slot (by omega), hbefore.isPriorityAt_eq slot hslot]
  ranked_prefix := hbefore.ranked_prefix.trans h.ranked_prefix

theorem withNew (hvalid : pool.Valid) (hnew : pool.interned[constant]? = none) :
    (pool.withNew constant).Includes pool where
  toExtends := (Change.added constant hnew).extends
  isPriorityAt_eq slot _ := isPriorityAt_withNew slot
  ranked_prefix := by
    rw [ranked_withNew hvalid.fixed_le]
    exact List.prefix_append ..

/-- What interning finds in a pool it finds in all that include it. -/
theorem interned_eq (h : later.Includes pool) (hpool : pool.Valid) (hlater : later.Valid)
    (hfound : pool.interned[constant]? = some id) : later.interned[constant]? = some id := by
  rw [hpool.interned_eq] at hfound
  obtain ⟨slot, hslot, rfl⟩ := Option.map_eq_some_iff.mp hfound
  obtain ⟨added, hadded⟩ := h.constants_eq
  have hfirst : later.constants.idxOf? constant = some slot := by
    rw [← hadded, List.idxOf?, List.findIdx?_append, ← List.idxOf?, hslot]
    rfl
  rw [hlater.interned_eq, hfirst, h.tag_eq]
  rfl

/-- The constants of a pool stand where they stood. -/
theorem stands_iff (h : later.Includes pool) (hpool : pool.Valid) (hlater : later.Valid)
    (howns : pool.owns id = true) (offset : Nat) :
    later.Stands id offset ↔ pool.Stands id offset := by
  obtain ⟨added, hadded⟩ := h.ranked_prefix
  obtain ⟨first, hfirst⟩ := hpool.exists_stands_iff.mpr howns
  obtain ⟨constant, hconstant⟩ := exists_constant_iff.mpr howns
  have hend := hpool.stands_add_width_le hfirst hconstant
  have hpos := width_pos constant
  have hsame {place : Nat} (hplace : place < pool.layout.stop) :
      later.Stands id place ↔ pool.Stands id place :=
    stands_iff_of_ranked hpool hlater hadded.symm hplace
  constructor
  · intro hstands
    -- A constant stands at one offset only, and that is where it stood.
    have hlaterFirst := (hsame (by omega)).mpr hfirst
    rw [hlater.stands_unique hstands hlaterFirst]
    exact hfirst
  · intro hstands
    have hlast := hpool.stands_add_width_le hstands hconstant
    exact (hsame (by omega)).mpr hstands

end Includes

/-- After a constant is interned, the pool includes what was there, and interning the constant again
finds it. -/
theorem Valid.intern_spec (h : pool.Valid) (constant : Constant) :
    ∃ id later, intern constant pool = (id, later) ∧ later.Valid ∧ later.Includes pool
      ∧ later.constant id = .ok constant ∧ later.interned[constant]? = some id := by
  rcases h.intern_cases constant with ⟨id, hintern, hconstant⟩ | ⟨hnew, hintern⟩
  · exact ⟨id, pool, hintern, h, .refl pool, hconstant, interned_of_intern hintern⟩
  · refine ⟨_, _, hintern, h.withNew hnew, .withNew h hnew, constant_withNew, ?_⟩
    exact Std.HashMap.getElem?_insert_self

/-! ## Copying as a recursion -/

/-- What is done with the constant of a handle matters for that constant only. -/
theorem bind_constant_congr {α : Type} {next other : Constant → Edit α}
    (h : ∀ constant, source.constant id = .ok constant → next constant = other constant) :
    (liftM (source.constant id) : Edit Constant) >>= next
      = (liftM (source.constant id) : Edit Constant) >>= other := by
  cases hconstant : source.constant id with
  | ok constant =>
    have hsame := h constant hconstant
    show (pure constant : Edit Constant) >>= next = (pure constant : Edit Constant) >>= other
    rw [pure_bind, pure_bind, hsame]
  | error cause => rfl

/-- A depth that exceeds the rank is as good as any other. -/
theorem Grounded.copyFrom_eq (h : source.Grounded) {depth other : Nat}
    (hdepth : source.rank id < depth) (hother : source.rank id < other) :
    copyFrom source depth id = copyFrom source other id := by
  induction depth generalizing id other with
  | zero => exact absurd hdepth (Nat.not_lt_zero _)
  | succ depth ih =>
    obtain ⟨other, rfl⟩ : ∃ less, other = less + 1 := ⟨other - 1, by omega⟩
    refine bind_constant_congr fun constant hconstant => ?_
    have hcopies : constant.mapReferencesM (copyFrom source depth)
        = constant.mapReferencesM (copyFrom source other) := by
      refine Constant.mapReferencesM_congr fun reference hreference => ?_
      have hlower := h.rank_lt ⟨constant, hconstant, hreference⟩
      exact ih (by omega) (by omega)
    rw [hcopies]

/-- Copying a constant is copying what it refers to and adding it with the copies for references.
The recursion ends, since references do. -/
theorem Grounded.copy_eq (h : source.Grounded) (id : ConstantId) : copy source id = (do
    let constant ← (source.constant id : Except Error Constant)
    let copied ← constant.mapReferencesM (copy source)
    add copied) := by
  rw [copy, show source.size + 4 = (source.size + 3) + 1 from rfl, copyFrom]
  refine bind_constant_congr fun constant hconstant => ?_
  have hcopies : constant.mapReferencesM (copyFrom source (source.size + 3))
      = constant.mapReferencesM (copy source) := by
    refine Constant.mapReferencesM_congr fun reference hreference => ?_
    have hlower := h.rank_lt ⟨constant, hconstant, hreference⟩
    have hbound := rank_lt_size (exists_constant_iff.mp ⟨constant, hconstant⟩)
    exact h.copyFrom_eq (by omega) (by omega)
  rw [hcopies]

/-! ## What is known of a copy -/

/-- A copy belongs to the pool and means what the constant means, and in all pools that include this
one, copying the constant again finds the copy and changes nothing. -/
structure CopiedAs (source : Pool) (id copied : ConstantId) (pool : Pool) : Prop where
  owns_eq : pool.owns copied = true
  means : ∀ meaning, source.Means id meaning → pool.Means copied meaning
  settled : ∀ later : Pool, later.Valid → later.Includes pool →
    (copy source id).apply later = (.ok copied, later)

/-- What a constant was copied as stays its copy while the pool grows. -/
theorem CopiedAs.includes (h : CopiedAs source id copied pool) (hincludes : later.Includes pool) :
    CopiedAs source id copied later where
  owns_eq := hincludes.toExtends.owns_eq h.owns_eq
  means meaning hmeaning := (h.means meaning hmeaning).extends hincludes.toExtends
  settled last hvalid hlast := h.settled last hvalid (hlast.trans hincludes)

/-- Copies are in the pool they were copied into. -/
theorem owns_of_copied {ids copies : List ConstantId}
    (h : List.Forall₂ (fun id copied => CopiedAs source id copied pool) ids copies) :
    ∀ copied ∈ copies, pool.owns copied = true :=
  ((List.forall₂_and_left _ _).mp (h.flip.imp fun _ _ hcopied => ⟨hcopied.owns_eq, hcopied⟩)).1

/-- Copying succeeds, whatever the other pool holds, and includes it. -/
def Copies (source : Pool) (id : ConstantId) : Prop :=
  ∀ dest : Pool, dest.Valid → ∃ copied later, (copy source id).apply dest = (.ok copied, later)
    ∧ later.Valid ∧ later.Includes dest ∧ CopiedAs source id copied later

/-- Constants are copied one after another, and the earlier copies stay what they are. -/
theorem exists_copies {ids : List ConstantId} (h : ∀ id ∈ ids, Copies source id)
    (hdest : dest.Valid) : ∃ copies later, (ids.mapM (copy source)).apply dest = (.ok copies, later)
      ∧ later.Valid ∧ later.Includes dest
      ∧ List.Forall₂ (fun id copied => CopiedAs source id copied later) ids copies := by
  induction ids generalizing dest with
  | nil => exact ⟨[], dest, rfl, hdest, .refl dest, .nil⟩
  | cons id ids ih =>
    rw [List.forall_mem_cons] at h
    obtain ⟨copied, middle, hcopy, hmiddle, hincludes, hcopied⟩ := h.1 dest hdest
    obtain ⟨copies, later, hcopies, hlater, hlast, hothers⟩ := ih h.2 hmiddle
    refine ⟨copied :: copies, later, ?_, hlater, hlast.trans hincludes,
      .cons (hcopied.includes hlast) hothers⟩
    rw [List.mapM_cons, Edit.apply_bind_ok hcopy, Edit.apply_bind_ok hcopies]
    rfl

/-- If each of some constants is found by copying it, all are found one after another. -/
theorem apply_copies {ids copies : List ConstantId} (h : List.Forall₂
      (fun id copied => (copy source id).apply dest = (.ok copied, dest)) ids copies) :
    (ids.mapM (copy source)).apply dest = (.ok copies, dest) := by
  induction h with
  | nil => rfl
  | cons hcopy _ ih =>
    rw [List.mapM_cons, Edit.apply_bind_ok hcopy, Edit.apply_bind_ok ih]
    rfl

/-- Copying a constant, once the copies of its references are known. -/
theorem Grounded.apply_copy (h : source.Grounded) {copies : List ConstantId}
    (hconstant : source.constant id = .ok constant)
    (hcopies : (constant.references.mapM (copy source)).apply dest = (.ok copies, later)) :
    (copy source id).apply dest = (add (constant.withReferences copies)).apply later := by
  have hlookup : (liftM (source.constant id) : Edit Constant).apply dest
      = (.ok constant, dest) := by
    rw [Edit.apply_ofExcept, hconstant]
  rw [h.copy_eq, Edit.apply_bind_ok hlookup, Constant.mapReferencesM_eq,
    Edit.apply_bind_ok (Edit.apply_map hcopies _)]

/-- Every constant of a pool whose references come to an end is copied. -/
theorem Grounded.copies (h : source.Grounded) (howns : source.owns id = true) :
    Copies source id := by
  induction id using h.wellFounded_refersTo.induction with
  | _ id ih =>
    intro dest hdest
    obtain ⟨constant, hconstant⟩ := exists_constant_iff.mpr howns
    have hreferences (reference : ConstantId) (hreference : reference ∈ constant.references) :
        Copies source reference :=
      ih reference ⟨constant, hconstant, hreference⟩
        (h.owns_references hconstant reference hreference)
    obtain ⟨copies, middle, hcopies, hmiddle, hincludes, hcopied⟩ := exists_copies hreferences hdest
    -- The copies are what the constant refers to in the other pool, where it is added.
    have hlength : copies.length = constant.references.length := hcopied.length_eq.symm
    have hrefers : (constant.withReferences copies).references = copies :=
      Constant.references_withReferences hlength
    have howned {later : Pool} (hlater : later.Extends middle) :
        ∀ copy ∈ (constant.withReferences copies).references, later.owns copy = true := by
      rw [hrefers]
      exact fun copy hcopy => hlater.owns_eq (owns_of_copied hcopied copy hcopy)
    obtain ⟨copied, later, hintern, hlater, hlast, hadded, hfound⟩ :=
      hmiddle.intern_spec (constant.withReferences copies)
    refine ⟨copied, later, ?_, hlater, hlast.trans hincludes, ?_, ?_, ?_⟩
    · rw [h.apply_copy hconstant hcopies, apply_add (howned (.refl middle)), hintern]
    · exact exists_constant_iff.mp ⟨_, hadded⟩
    · intro meaning hmeaning
      obtain ⟨original, parts, horiginal, rfl, hparts⟩ := hmeaning.exists_parts
      rw [hconstant] at horiginal
      cases horiginal
      rw [← Constant.blank_withReferences hlength]
      refine .intro hadded ?_
      rw [hrefers]
      refine forall₂_of_common hcopied hparts fun reference _ copy part hcopy hpart => ?_
      exact (hcopy.means part hpart).extends hlast.toExtends
    · intro last hvalid hlastIncludes
      have hagain := apply_copies (hcopied.imp fun _ _ hcopy =>
        hcopy.settled last hvalid (hlastIncludes.trans hlast))
      have hinterned := hlastIncludes.interned_eq hlater hvalid hfound
      rw [h.apply_copy hconstant hagain,
        apply_add (howned (hlastIncludes.trans hlast).toExtends), intern, hinterned]

/-! ## What copying does -/

/-- What a pool has is as it was, in a later state: the same constants under the same handles, found
again by those, marked or not as before, and at the same places with the same indices. -/
structure Preserves (later pool : Pool) : Prop where
  constant_eq : ∀ id constant, pool.constant id = .ok constant → later.constant id = .ok constant
  intern_eq : ∀ id constant, intern constant pool = (id, pool) →
    intern constant later = (id, later)
  isPriorityAt_eq : ∀ id : ConstantId, pool.owns id = true →
    later.isPriorityAt id.slot = pool.isPriorityAt id.slot
  stands_iff : ∀ id, pool.owns id = true →
    ∀ offset, later.Stands id offset ↔ pool.Stands id offset
  idAt_eq : ∀ index id, pool.idAt index = .ok id → later.idAt index = .ok id
  indexOf_eq : ∀ indices laterIndices, pool.resolve = .ok indices →
    later.resolve = .ok laterIndices → ∀ id, pool.owns id = true →
    laterIndices.indexOf id = indices.indexOf id

/-- Where nothing but constants was added, all that was said of the old ones still holds. -/
theorem Includes.preserves (h : later.Includes pool) (hpool : pool.Valid) (hlater : later.Valid) :
    later.Preserves pool where
  constant_eq _ _ hconstant := h.toExtends.constant_eq hconstant
  intern_eq id constant hintern := by
    have hfound := h.interned_eq hpool hlater (interned_of_intern hintern)
    rw [intern, hfound]
  isPriorityAt_eq id howns := h.isPriorityAt_eq id.slot (owns_iff.mp howns).2
  stands_iff _ howns := h.stands_iff hpool hlater howns
  idAt_eq index id hid := by
    have hstands := hpool.idAt_eq_ok_iff.mp hid
    have howns := hpool.exists_stands_iff.mp ⟨_, hstands⟩
    exact hlater.idAt_eq_ok_iff.mpr ((h.stands_iff hpool hlater howns _).mpr hstands)
  indexOf_eq indices laterIndices hresolve hlaterResolve id howns := by
    obtain ⟨index, hindex, -⟩ := hpool.exists_index hresolve howns
    have hstands := (hpool.indexOf_eq_ok_iff hresolve).mp hindex
    have hlaterStands := (h.stands_iff hpool hlater howns _).mpr hstands
    rw [hindex, (hlater.indexOf_eq_ok_iff hlaterResolve).mpr hlaterStands]

/-- What copying a handle answers and leaves, whichever type of handle is asked for. -/
structure CopyAnswers (source dest : Pool) (id : ConstantId) (result : Except Error ConstantId)
    (later : Pool) : Prop where
  copy_eq : (copy source id).apply dest = (result, later)
  copyUtf8_eq : (copyUtf8 source ⟨id⟩).apply dest = (Utf8Id.mk <$> result, later)
  copyClass_eq : (copyClass source ⟨id⟩).apply dest = (ClassId.mk <$> result, later)
  copyNameAndType_eq :
    (copyNameAndType source ⟨id⟩).apply dest = (NameAndTypeId.mk <$> result, later)

/-- Copying typed handles answers what copying their constants does. -/
theorem copyAnswers_of_copy_eq {result : Except Error ConstantId}
    (h : (copy source id).apply dest = (result, later)) :
    CopyAnswers source dest id result later where
  copy_eq := h
  copyUtf8_eq := Edit.apply_map h _
  copyClass_eq := Edit.apply_map h _
  copyNameAndType_eq := Edit.apply_map h _

/-- A handle of another pool is refused before anything is done. -/
theorem apply_copy_foreign (hforeign : source.owns id = false) :
    (copy source id).apply dest = (.error (.foreignConstant id), dest) := by
  rw [copy, show source.size + 4 = (source.size + 3) + 1 from rfl, copyFrom, Edit.apply_bind,
    Edit.apply_ofExcept, constant_of_not_owns hforeign]

/-- What means the same is of the same kind. -/
theorem Means.tag_eq {other : ConstantId} {meaning : Meaning} (h : source.Means id meaning)
    (hother : pool.Means other meaning) : ∃ constant found, source.constant id = .ok constant
      ∧ pool.constant other = .ok found ∧ found.tag = constant.tag := by
  obtain ⟨constant, parts, hconstant, rfl, -⟩ := h.exists_parts
  obtain ⟨found, others, hfound, hmeaning, -⟩ := hother.exists_parts
  have hblank : constant.blank = found.blank := (Meaning.of.inj hmeaning).1
  refine ⟨constant, found, hconstant, hfound, ?_⟩
  rw [← found.tag_blank, ← hblank, constant.tag_blank]

/-- The meaning that a handle has is the only one it has. -/
theorem Grounded.means_iff (h : pool.Grounded) {meaning other : Meaning}
    (hmeans : pool.Means id meaning) : pool.Means id other ↔ other = meaning := by
  constructor
  · exact fun hother => h.means_unique hother hmeans
  · rintro rfl
    exact hmeans

/-- What becomes of a pool that a constant is copied to is made by an operation. -/
theorem Reachable.apply_copy (h : dest.Reachable)
    (hcopy : (copy source id).apply dest = (.ok copied, later)) : later.Reachable := by
  have hafter : (Operation.copy source id).after dest = later := congrArg Prod.snd hcopy
  rw [← hafter]
  exact h.operate _

/-- Copying ends: it follows references, and these come to an end. It is refused exactly if the
handle is not one of the source, and then nothing is done. Otherwise the handle it answers means in
the other pool what the given one means in the source, and so is of the same kind. All that the
other pool had is as it was, and copying again answers the same handle and does nothing. -/
theorem Reachable.copy_exact (hsource : source.Reachable) (hdest : dest.Reachable)
    (id : ConstantId) :
    WellFounded source.RefersTo
    ∧ copy source id = (do
        let constant ← (source.constant id : Except Error Constant)
        let copied ← constant.mapReferencesM (copy source)
        add copied)
    ∧ (source.owns id = false → CopyAnswers source dest id (.error (.foreignConstant id)) dest)
    ∧ (source.owns id = true → ∃ copied later meaning,
        CopyAnswers source dest id (.ok copied) later
        ∧ (∀ other, source.Means id other ↔ other = meaning)
        ∧ (∀ other, later.Means copied other ↔ other = meaning)
        ∧ (∃ constant found, source.constant id = .ok constant
          ∧ later.constant copied = .ok found ∧ found.tag = constant.tag)
        ∧ later.Preserves dest
        ∧ CopyAnswers source later id (.ok copied) later) := by
  have hgrounded := hsource.grounded
  refine ⟨hgrounded.wellFounded_refersTo, hgrounded.copy_eq id, fun hforeign => ?_, fun howns => ?_⟩
  · exact copyAnswers_of_copy_eq (apply_copy_foreign hforeign)
  · obtain ⟨copied, later, hcopy, hvalid, hincludes, hcopied⟩ :=
      hgrounded.copies howns dest hdest.valid
    obtain ⟨meaning, hmeaning⟩ := hgrounded.exists_means howns
    have hlater := hdest.apply_copy hcopy
    have hmeans := hcopied.means meaning hmeaning
    refine ⟨copied, later, meaning, copyAnswers_of_copy_eq hcopy, ?_, ?_, hmeaning.tag_eq hmeans,
      hincludes.preserves hdest.valid hvalid, ?_⟩
    · exact fun other => hgrounded.means_iff hmeaning
    · exact fun other => hlater.grounded.means_iff hmeans
    · exact copyAnswers_of_copy_eq (hcopied.settled later hvalid (.refl later))

/-- A class that was read in front of its name, and has to be copied behind it. -/
theorem resolves_forward : Resolves ⟨0⟩ [.classInfo 2, .leaf (.utf8 "A")]
    [.classInfo ⟨⟨⟨0⟩, 1⟩⟩, .utf8 "A"] := by
  refine ⟨List.forall_mem_cons.mpr ⟨trivial, List.forall_mem_singleton.mpr ?_⟩, by decide,
    .cons rfl (.cons rfl .nil)⟩
  show (Text.ModifiedUtf8.encode (Text.Utf16.ofString "A")).length < 2 ^ 16
  decide

/-- Such a class is copied to a pool that has the name already, and names the same there. -/
theorem copy_exact_of_forward : ∃ copied later,
    (copy (ofRead ⟨0⟩ [.classInfo ⟨⟨⟨0⟩, 1⟩⟩, .utf8 "A"]) ⟨⟨0⟩, 0⟩).apply
      ((Operation.addUtf8 "A").after (Pool.empty ⟨1⟩)) = (.ok copied, later)
    ∧ later.Means copied (.of (.classInfo ⟨Constant.noId⟩) [.of (.utf8 "A") []]) := by
  let source := ofRead ⟨0⟩ [.classInfo ⟨⟨⟨0⟩, 1⟩⟩, .utf8 "A"]
  have hdest : ((Operation.addUtf8 "A").after (Pool.empty ⟨1⟩)).Reachable := .operate _ (.empty ⟨1⟩)
  obtain ⟨copied, later, meaning, hanswers, hsource, hmeans, -⟩ :=
    (Reachable.copy_exact resolves_forward.reachable hdest ⟨⟨0⟩, 0⟩).2.2.2 rfl
  have hnameConstant : source.constant ⟨⟨0⟩, 1⟩ = .ok (.utf8 "A") := rfl
  have hclassConstant : source.constant ⟨⟨0⟩, 0⟩ = .ok (.classInfo ⟨⟨⟨0⟩, 1⟩⟩) := rfl
  have hname : source.Means ⟨⟨0⟩, 1⟩ (.of (.utf8 "A") []) := Means.intro hnameConstant .nil
  have hclass : source.Means ⟨⟨0⟩, 0⟩ (.of (.classInfo ⟨Constant.noId⟩) [.of (.utf8 "A") []]) :=
    Means.intro hclassConstant (.cons hname .nil)
  exact ⟨copied, later, hanswers.copy_eq, (hmeans _).mpr ((hsource _).mp hclass)⟩

end Pool

end ClassFormat
