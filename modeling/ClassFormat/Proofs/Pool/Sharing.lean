import ClassFormat.Proofs.Pool.Interning
/-!
# What copying finds

A copied constant is compared with what the other pool has by its references, and the references
are copies themselves. So copying finds a constant if it stands in the first of its slots, its
references lead to first slots as well, and so on (`Shares`), and only then: otherwise some
reference of the copy is new, and so is the copy (`Grounded.shares_or_new`).

Without repetitions every slot is a first one, and copying finds all that means the same. A pool
that was read keeps its repetitions. There the class of a name that is there twice may refer to the
second one, and then it is not found by its meaning (`copy_misses_repeated`).
-/

namespace ClassFormat

namespace Pool

variable {source dest later : Pool} {id existing : ConstantId} {constant : Constant}
  {meaning : Meaning} {parts : List Meaning}

/-- The handle means that, and all constants on the way stand in the first of their slots. -/
inductive Shares (pool : Pool) : ConstantId → Meaning → Prop where
  | intro {id : ConstantId} {constant : Constant} {parts : List Meaning}
    (hfirst : pool.IsFirst constant id)
    (hparts : List.Forall₂ (Shares pool) constant.references parts) :
    Shares pool id (.of constant.blank parts)

/-- What shares a meaning is the first of its kind, over first ones that share the parts. -/
theorem Shares.exists_parts (h : dest.Shares existing meaning) :
    ∃ constant parts, dest.IsFirst constant existing ∧ meaning = .of constant.blank parts
      ∧ List.Forall₂ dest.Shares constant.references parts := by
  cases h with
  | intro hfirst hparts => exact ⟨_, _, hfirst, rfl, hparts⟩

/-- What is shared is meant. -/
theorem Shares.means (h : dest.Shares existing meaning) : dest.Means existing meaning := by
  induction meaning using Meaning.partsInduction generalizing existing with
  | _ blank parts ih =>
    obtain ⟨constant, found, hfirst, hmeaning, hparts⟩ := h.exists_parts
    cases hmeaning
    exact .intro hfirst.constant_eq
      (forall₂_imp_of_mem hparts fun part hpart _ hreference => ih part hpart hreference)

/-- What shares a meaning is in the pool. -/
theorem owns_of_shares {shared : List ConstantId} (h : List.Forall₂ dest.Shares shared parts) :
    ∀ id ∈ shared, dest.owns id = true := by
  have howns (id : ConstantId) (part : Meaning) (hshares : dest.Shares id part) :
      dest.owns id = true := by
    obtain ⟨constant, -, hfirst, -⟩ := hshares.exists_parts
    exact exists_constant_iff.mp ⟨constant, hfirst.constant_eq⟩
  exact ((List.forall₂_and_left _ _).mp (h.imp fun id part hid => ⟨howns id part hid, hid⟩)).1

/-- Without repetitions every handle of a constant is the first. -/
theorem isFirst_of_nodup (hnodup : dest.constants.Nodup)
    (hconstant : dest.constant id = .ok constant) : dest.IsFirst constant id where
  constant_eq := hconstant
  slot_le _ hother :=
    Nat.le_of_eq (congrArg ConstantId.slot (eq_of_constant_eq hnodup hconstant hother))

/-- Without repetitions all that means something is shared. -/
theorem Means.shares (h : dest.Means id meaning) (hnodup : dest.constants.Nodup) :
    dest.Shares id meaning := by
  induction meaning using Meaning.partsInduction generalizing id with
  | _ blank parts ih =>
    obtain ⟨constant, found, hconstant, hmeaning, hparts⟩ := h.exists_parts
    cases hmeaning
    exact .intro (isFirst_of_nodup hnodup hconstant)
      (forall₂_imp_of_mem hparts fun part hpart _ hreference => ih part hpart hreference)

/-! ## Copying what is shared -/

/-- A constant with other references is the other one if it means the same without them. -/
theorem withReferences_eq {other : Constant} (hblank : constant.blank = other.blank)
    (hlength : other.references.length = constant.references.length) :
    constant.withReferences other.references = other :=
  Constant.eq_of_blank_eq ((Constant.blank_withReferences hlength).trans hblank)
    (Constant.references_withReferences hlength)

/-- Copying finds what is shared. -/
theorem Shares.apply_copy (h : dest.Shares existing meaning) (hsource : source.Grounded)
    (hvalid : dest.Valid) (hdest : dest.Grounded) (hmeans : source.Means id meaning) :
    (copy source id).apply dest = (.ok existing, dest) := by
  induction meaning using Meaning.partsInduction generalizing id existing with
  | _ blank parts ih =>
    obtain ⟨constant, found, hconstant, hmeaning, hparts⟩ := hmeans.exists_parts
    cases hmeaning
    obtain ⟨shared, others, hfirst, hmeaning, hothers⟩ := h.exists_parts
    obtain ⟨hblank, rfl⟩ := Meaning.of.inj hmeaning
    have hcopies : List.Forall₂ (fun id copied => (copy source id).apply dest = (.ok copied, dest))
        constant.references shared.references :=
      forall₂_of_common hparts.flip hothers.flip fun part hpart _ _ hreference hcopy =>
        ih part hpart hcopy hreference
    rw [hsource.apply_copy hconstant (apply_copies hcopies),
      withReferences_eq hblank hcopies.length_eq.symm]
    exact hfirst.apply_add hvalid hdest

/-! ## Copying what is not -/

/-- The copy of a constant is new if one of the copies it refers to is. -/
theorem Extends.owns_eq_false_of_reference (h : later.Extends dest) (hdest : dest.Grounded)
    {copied reference : ConstantId} (hconstant : later.constant copied = .ok constant)
    (hreference : reference ∈ constant.references) (hnew : dest.owns reference = false) :
    dest.owns copied = false := by
  by_contra howns
  obtain ⟨found, hfound⟩ := exists_constant_iff.mpr (Bool.not_eq_false _ ▸ howns)
  have hsame : found = constant := by
    have hkept := h.constant_eq hfound
    rw [hconstant] at hkept
    exact (Except.ok.inj hkept).symm
  have howned := hdest.owns_references hfound reference (hsame ▸ hreference)
  rw [hnew] at howned
  exact Bool.false_ne_true howned

/-- What is copied is shared and found, or its copy is new. -/
def FindsOrAdds (source dest : Pool) (id : ConstantId) (meaning : Meaning) : Prop :=
  (∃ existing, dest.Shares existing meaning
    ∧ (copy source id).apply dest = (.ok existing, dest))
  ∨ ∃ copied later, (copy source id).apply dest = (.ok copied, later) ∧ dest.owns copied = false

/-- If that is so for each of some constants, all are found or one of the copies is new. -/
theorem finds_or_adds_of_forall (hsource : source.Grounded) (hvalid : dest.Valid)
    {ids : List ConstantId} (howns : ∀ id ∈ ids, source.owns id = true)
    (h : List.Forall₂ (FindsOrAdds source dest) ids parts) :
    (∃ shared, List.Forall₂ dest.Shares shared parts
      ∧ (ids.mapM (copy source)).apply dest = (.ok shared, dest))
    ∨ ∃ copies later, (ids.mapM (copy source)).apply dest = (.ok copies, later)
      ∧ ∃ copied ∈ copies, dest.owns copied = false := by
  induction h with
  | nil => exact .inl ⟨[], .nil, rfl⟩
  | @cons id part ids parts hhead _ ih =>
    rw [List.forall_mem_cons] at howns
    rw [List.mapM_cons]
    rcases hhead with ⟨existing, hshares, hcopy⟩ | ⟨copied, middle, hcopy, hnew⟩
    · rw [Edit.apply_bind_ok hcopy]
      rcases ih howns.2 with ⟨shared, hshared, hcopies⟩ | ⟨copies, later, hcopies, hnew⟩
      · rw [Edit.apply_bind_ok hcopies]
        exact .inl ⟨existing :: shared, .cons hshares hshared, rfl⟩
      · rw [Edit.apply_bind_ok hcopies]
        obtain ⟨copied, hmem, hcopied⟩ := hnew
        exact .inr ⟨existing :: copies, later, rfl, copied, .tail _ hmem, hcopied⟩
    · -- The others are copied to a pool that has the new one, whatever becomes of them.
      obtain ⟨_, _, hsame, hmiddle, -⟩ := hsource.copies howns.1 dest hvalid
      obtain ⟨-, rfl⟩ := Prod.mk.inj (hcopy.symm.trans hsame)
      obtain ⟨copies, later, hcopies, -⟩ :=
        exists_copies (fun id hid => hsource.copies (howns.2 id hid)) hmiddle
      rw [Edit.apply_bind_ok hcopy, Edit.apply_bind_ok hcopies]
      exact .inr ⟨copied :: copies, later, rfl, copied, .head _, hnew⟩

/-- The handle behind all that are there is new. -/
theorem owns_size (pool : Pool) : pool.owns ⟨pool.tag, pool.size⟩ = false := by
  simp [owns, size]

/-- If the references are found, so is the constant, or it is added. -/
theorem Grounded.finds_or_adds_of_found (hsource : source.Grounded) (hvalid : dest.Valid)
    (hdest : dest.Grounded) {shared : List ConstantId}
    (hconstant : source.constant id = .ok constant)
    (hshared : List.Forall₂ dest.Shares shared parts)
    (hlength : shared.length = constant.references.length)
    (hcopies : (constant.references.mapM (copy source)).apply dest = (.ok shared, dest)) :
    FindsOrAdds source dest id (.of constant.blank parts) := by
  have hblank := Constant.blank_withReferences hlength
  have hrefers := Constant.references_withReferences hlength
  have hcopy := hsource.apply_copy hconstant hcopies
  by_cases hthere : ∃ other, dest.constant other = .ok (constant.withReferences shared)
  · obtain ⟨other, hother⟩ := hthere
    obtain ⟨first, hfirst⟩ := hvalid.exists_isFirst hother
    have hshares := Shares.intro hfirst (hrefers.symm ▸ hshared)
    rw [hblank] at hshares
    exact .inl ⟨first, hshares, hcopy.trans (hfirst.apply_add hvalid hdest)⟩
  · have hadded := hvalid.apply_add_of_absent (fun other hother => hthere ⟨other, hother⟩)
      (hrefers.symm ▸ owns_of_shares hshared)
    exact .inr ⟨_, _, hcopy.trans hadded, owns_size dest⟩

/-- If the copy of a reference is new, so is that of the constant. -/
theorem Grounded.adds_of_new (hsource : source.Grounded) (hvalid : dest.Valid)
    (hdest : dest.Grounded) {copies : List ConstantId}
    (hconstant : source.constant id = .ok constant)
    (hcopies : (constant.references.mapM (copy source)).apply dest = (.ok copies, later))
    (hnew : ∃ copied ∈ copies, dest.owns copied = false) :
    ∃ copied last, (copy source id).apply dest = (.ok copied, last)
      ∧ dest.owns copied = false := by
  have howns := hsource.owns_references hconstant
  obtain ⟨_, _, hsame, hlater, hincludes, hcopied⟩ :=
    exists_copies (fun reference hreference => hsource.copies (howns reference hreference)) hvalid
  obtain ⟨hcopiesEq, rfl⟩ := Prod.mk.inj (hcopies.symm.trans hsame)
  obtain rfl := Except.ok.inj hcopiesEq
  have hrefers := Constant.references_withReferences hcopied.length_eq.symm
  obtain ⟨copied, last, hintern, -, hlast, hadded, -⟩ :=
    hlater.intern_spec (constant.withReferences copies)
  refine ⟨copied, last, ?_, ?_⟩
  · rw [hsource.apply_copy hconstant hcopies,
      apply_add (hrefers.symm ▸ owns_of_copied hcopied), hintern]
  · obtain ⟨copy, hcopy, hcopyNew⟩ := hnew
    exact (hlast.trans hincludes).owns_eq_false_of_reference hdest hadded
      (hrefers.symm ▸ hcopy) hcopyNew

/-- What means something in a pool is shared and found in another one, or its copy there is new. -/
theorem Grounded.finds_or_adds (hsource : source.Grounded) (hvalid : dest.Valid)
    (hdest : dest.Grounded) (hmeans : source.Means id meaning) :
    FindsOrAdds source dest id meaning := by
  induction meaning using Meaning.partsInduction generalizing id with
  | _ blank parts ih =>
    obtain ⟨constant, found, hconstant, hmeaning, hparts⟩ := hmeans.exists_parts
    cases hmeaning
    have hreferences : List.Forall₂ (FindsOrAdds source dest) constant.references parts :=
      forall₂_imp_of_mem hparts fun part hpart _ hreference => ih part hpart hreference
    rcases finds_or_adds_of_forall hsource hvalid (hsource.owns_references hconstant) hreferences
      with ⟨shared, hshared, hcopies⟩ | ⟨copies, middle, hcopies, hnew⟩
    · exact hsource.finds_or_adds_of_found hvalid hdest hconstant hshared
        (hshared.length_eq.trans hparts.length_eq.symm) hcopies
    · exact .inr (hsource.adds_of_new hvalid hdest hconstant hcopies hnew)

/-- **What copying finds.** Copying answers a handle that is there and does nothing exactly if that
handle shares the meaning. If there is none, the answer is a new handle, and the pool has grown. In
a pool in which no constant was read twice a handle shares what it means, and so copying finds
exactly what means the same. -/
theorem Reachable.copy_finds_iff (hsource : source.Reachable) (hdest : dest.Reachable)
    (howns : source.owns id = true) :
    ∃ meaning, (∀ other, source.Means id other ↔ other = meaning)
      ∧ (∀ existing, (copy source id).apply dest = (.ok existing, dest)
        ↔ dest.Shares existing meaning)
      ∧ ((∀ existing, ¬ dest.Shares existing meaning) → ∃ copied later,
        (copy source id).apply dest = (.ok copied, later) ∧ later.Means copied meaning
        ∧ dest.owns copied = false ∧ dest.size < later.size)
      ∧ ((dest.constants.take dest.fixed).Nodup → ∀ existing,
        (copy source id).apply dest = (.ok existing, dest) ↔ dest.Means existing meaning) := by
  have hgrounded := hsource.grounded
  obtain ⟨meaning, hmeaning⟩ := hgrounded.exists_means howns
  obtain ⟨copied, later, hcopy, -, hincludes, hcopied⟩ := hgrounded.copies howns dest hdest.valid
  have hfinds (existing : ConstantId) :
      (copy source id).apply dest = (.ok existing, dest) ↔ dest.Shares existing meaning := by
    constructor
    · intro hexisting
      obtain ⟨hresult, rfl⟩ := Prod.mk.inj (hcopy.symm.trans hexisting)
      obtain rfl := Except.ok.inj hresult
      rcases hgrounded.finds_or_adds hdest.valid hdest.grounded hmeaning with
        ⟨found, hshares, hfound⟩ | ⟨added, last, hadded, hnew⟩
      · obtain ⟨hsame, -⟩ := Prod.mk.inj (hcopy.symm.trans hfound)
        exact Except.ok.inj hsame ▸ hshares
      · obtain ⟨hsame, -⟩ := Prod.mk.inj (hcopy.symm.trans hadded)
        rw [← Except.ok.inj hsame, hcopied.owns_eq] at hnew
        cases hnew
    · exact fun hshares => hshares.apply_copy hgrounded hdest.valid hdest.grounded hmeaning
  refine ⟨meaning, fun other => hgrounded.means_iff hmeaning, hfinds, fun hnone => ?_,
    fun hread existing => ?_⟩
  · rcases hgrounded.finds_or_adds hdest.valid hdest.grounded hmeaning with
      ⟨found, hshares, -⟩ | ⟨added, last, hadded, hnew⟩
    · exact absurd hshares (hnone found)
    · obtain ⟨hsame, rfl⟩ := Prod.mk.inj (hcopy.symm.trans hadded)
      obtain rfl := Except.ok.inj hsame
      refine ⟨copied, later, hcopy, hcopied.means meaning hmeaning, hnew, ?_⟩
      have howned := hcopied.owns_eq
      rw [owns_iff] at howned
      rw [Bool.eq_false_iff, ne_eq, owns_iff] at hnew
      have htag := hincludes.tag_eq
      by_contra hless
      exact hnew ⟨howned.1.trans htag, by omega⟩
  · rw [hfinds]
    exact ⟨Shares.means, fun hmeans => hmeans.shares (hdest.nodup hread)⟩

/-- The class of a name that is there once, and that of the second of two equal names, mean the
same. -/
theorem means_named_and_repeated :
    let named := ofRead ⟨0⟩ [.utf8 "A", .classInfo ⟨⟨⟨0⟩, 0⟩⟩]
    let repeated := ofRead ⟨1⟩ [.utf8 "A", .utf8 "A", .classInfo ⟨⟨⟨1⟩, 1⟩⟩]
    ∃ meaning, named.Means ⟨⟨0⟩, 1⟩ meaning ∧ repeated.Means ⟨⟨1⟩, 2⟩ meaning := by
  intro named repeated
  have hname : named.constant ⟨⟨0⟩, 0⟩ = .ok (.utf8 "A") := rfl
  have hclass : named.constant ⟨⟨0⟩, 1⟩ = .ok (.classInfo ⟨⟨⟨0⟩, 0⟩⟩) := rfl
  have hsecond : repeated.constant ⟨⟨1⟩, 1⟩ = .ok (.utf8 "A") := rfl
  have hother : repeated.constant ⟨⟨1⟩, 2⟩ = .ok (.classInfo ⟨⟨⟨1⟩, 1⟩⟩) := rfl
  have hnamed : named.Means ⟨⟨0⟩, 1⟩ (.of (.classInfo ⟨Constant.noId⟩) [.of (.utf8 "A") []]) :=
    Means.intro hclass (.cons (.intro hname .nil) .nil)
  have hrepeated : repeated.Means ⟨⟨1⟩, 2⟩ _ :=
    Means.intro hother (.cons (.intro hsecond .nil) .nil)
  exact ⟨_, hnamed, hrepeated⟩

/-- The class of a repeated name is found in a pool without repetitions. -/
theorem copy_finds_iff_of_named :
    (copy (ofRead ⟨1⟩ [.utf8 "A", .utf8 "A", .classInfo ⟨⟨⟨1⟩, 1⟩⟩]) ⟨⟨1⟩, 2⟩).apply
      (ofRead ⟨0⟩ [.utf8 "A", .classInfo ⟨⟨⟨0⟩, 0⟩⟩])
    = (.ok ⟨⟨0⟩, 1⟩, ofRead ⟨0⟩ [.utf8 "A", .classInfo ⟨⟨⟨0⟩, 0⟩⟩]) := by
  have howns : (ofRead ⟨1⟩ [.utf8 "A", .utf8 "A", .classInfo ⟨⟨⟨1⟩, 1⟩⟩]).owns ⟨⟨1⟩, 2⟩ = true :=
    rfl
  obtain ⟨meaning, hmeaning, -, -, hfinds⟩ :=
    Reachable.copy_finds_iff resolves_repeated.reachable resolves_named.reachable howns
  obtain ⟨shared, hnamed, hrepeated⟩ := means_named_and_repeated
  obtain rfl := (hmeaning shared).mp hrepeated
  refine (hfinds ?_ ⟨⟨0⟩, 1⟩).mpr hnamed
  rw [constants_ofRead, fixed_ofRead]
  decide

/-- A class is not found if the other pool has it by the second of two equal names: it is added
once more, by the first name. -/
theorem copy_misses_repeated :
    let source := ofRead ⟨0⟩ [.utf8 "A", .classInfo ⟨⟨⟨0⟩, 0⟩⟩]
    let dest := ofRead ⟨1⟩ [.utf8 "A", .utf8 "A", .classInfo ⟨⟨⟨1⟩, 1⟩⟩]
    source.Reachable ∧ dest.Reachable
      ∧ (∃ meaning, source.Means ⟨⟨0⟩, 1⟩ meaning ∧ dest.Means ⟨⟨1⟩, 2⟩ meaning)
      ∧ ∃ later, (copy source ⟨⟨0⟩, 1⟩).apply dest = (.ok ⟨⟨1⟩, 3⟩, later)
        ∧ dest.owns ⟨⟨1⟩, 3⟩ = false
        ∧ later.constants = dest.constants ++ [.classInfo ⟨⟨⟨1⟩, 0⟩⟩] := by
  intro source dest
  have hsource : source.Reachable := resolves_named.reachable
  have hdest : dest.Reachable := resolves_repeated.reachable
  have hname : source.constant ⟨⟨0⟩, 0⟩ = .ok (.utf8 "A") := rfl
  have hclass : source.constant ⟨⟨0⟩, 1⟩ = .ok (.classInfo ⟨⟨⟨0⟩, 0⟩⟩) := rfl
  have hfirst : dest.IsFirst (.utf8 "A") ⟨⟨1⟩, 0⟩ := ⟨rfl, fun _ _ => Nat.zero_le _⟩
  have hcopy : (copy source ⟨⟨0⟩, 0⟩).apply dest = (.ok ⟨⟨1⟩, 0⟩, dest) :=
    (Shares.intro hfirst .nil).apply_copy hsource.grounded hdest.valid hdest.grounded
      (.intro hname .nil)
  -- What would be found refers to the first name, and the class there to the second.
  have habsent (other : ConstantId) : dest.constant other ≠ .ok (.classInfo ⟨⟨⟨1⟩, 0⟩⟩) := by
    intro hother
    have hmem := List.mem_of_getElem? (constant_eq_ok_iff.mp hother).2
    rw [constants_ofRead] at hmem
    revert hmem
    decide
  refine ⟨hsource, hdest, means_named_and_repeated, _, ?_, rfl, constants_withNew⟩
  rw [hsource.grounded.apply_copy hclass (apply_copies (.cons hcopy .nil))]
  exact hdest.valid.apply_add_of_absent habsent (by decide)

end Pool

end ClassFormat
