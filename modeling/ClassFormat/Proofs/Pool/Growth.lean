import ClassFormat.Proofs.Pool.Kinds
/-!
# References come to an end

Following the references of a constant comes to an end in every pool that operations can make, for
two reasons. A constant that was added refers to constants that were there before it, since the
handles in it are checked against the pool, or have just been given out by it. And a constant that
was read refers to constants that were read, whose kinds are lower: a method handle to a member, a
member to a class and to a name with a descriptor, these to text.

`Growth` is a step of change with that check in it, and every operation is a row of such steps. So
`Grounded`, which states the two reasons, holds of every reachable pool, and `Pool.rank` turns them
into a number that each reference lowers.
-/

namespace ClassFormat

namespace Pool

variable {pool later : Pool} {constant : Constant} {id reference : ConstantId}

/-! ## Steps with their references checked -/

/-- One step of change. What a new constant refers to is there already. -/
inductive Growth (pool : Pool) : Pool → Prop where
  | added (constant : Constant) (hnew : pool.interned[constant]? = none)
    (howns : ∀ id ∈ constant.references, pool.owns id = true) :
    Growth pool (pool.withNew constant)
  | marked (slot : Nat) (constant : Constant) (hfree : pool.fixed ≤ slot)
    (hslot : pool.entries[slot]? = some ⟨constant, false⟩) :
    Growth pool (pool.withPriority slot constant)

/-- Any number of steps. -/
def Grows : Pool → Pool → Prop := Relation.ReflTransGen Growth

/-- Growing by a constant whose references are there is one of the two changes. -/
theorem Growth.change (h : Growth pool later) : Change pool later := by
  cases h with
  | added constant hnew _ => exact .added constant hnew
  | marked slot constant hfree hslot => exact .marked slot constant hfree hslot

/-- Growing is changing. -/
theorem Grows.changes (h : Grows pool later) : Changes pool later := by
  induction h with
  | refl => exact .refl
  | tail _ hgrowth ih => exact ih.tail hgrowth.change

/-- A valid pool stays valid while it grows. -/
theorem Valid.grows (h : pool.Valid) (hgrows : Grows pool later) : later.Valid :=
  h.changes hgrows.changes

/-- Interning a constant whose references are there lets the pool grow, or leaves it as it is. -/
theorem Valid.grows_intern (h : pool.Valid)
    (howns : ∀ id ∈ constant.references, pool.owns id = true) :
    Grows pool (intern constant pool).2 := by
  rcases h.intern_cases constant with ⟨id, hintern, -⟩ | ⟨hnew, hintern⟩
  · rw [hintern]
    exact .refl
  · rw [hintern]
    exact .single (.added constant hnew howns)

/-! ## Operations -/

/-- Whatever an edit answers, a valid pool has only grown. -/
def OnlyGrows {α : Type} (edit : Edit α) : Prop :=
  ∀ pool, pool.Valid → Grows pool (edit.apply pool).2

namespace OnlyGrows

variable {α β : Type}

theorem pure (value : α) : OnlyGrows (Pure.pure value) := fun _ _ => .refl

theorem throw (cause : Error) : OnlyGrows (MonadExcept.throw cause : Edit α) := fun _ _ => .refl

/-- A failing edit has let the pool grow, too, and nothing follows it. -/
theorem bind {edit : Edit α} {next : α → Edit β} (h : OnlyGrows edit)
    (hnext : ∀ value, OnlyGrows (next value)) : OnlyGrows (edit >>= next) := by
  intro pool hvalid
  have hfirst := h pool hvalid
  rw [Edit.apply_bind]
  rcases hresult : edit.apply pool with ⟨cause | value, middle⟩
  · rw [hresult] at hfirst
    exact hfirst
  · rw [hresult] at hfirst
    exact hfirst.trans (hnext value middle (hvalid.grows hfirst))

theorem lift {action : StateM Pool α} (h : ∀ pool, pool.Valid → Grows pool (action pool).2) :
    OnlyGrows (liftM action) := h

/-- A constant is added behind a check of all that it refers to. -/
theorem add (constant : Constant) : OnlyGrows (Pool.add constant) := by
  intro pool hvalid
  rcases add_cases constant pool with ⟨id, -, -, hfail⟩ | ⟨howns, hadd⟩
  · rw [hfail]
    exact .refl
  · rw [hadd]
    exact hvalid.grows_intern howns

/-- Marking is a step of growth, or none. -/
theorem setPriority (id : ConstantId) : OnlyGrows (Pool.setPriority id) := by
  intro pool _
  rcases setPriority_cases id pool with hsame | ⟨constant, hfree, hslot, hmarked⟩
  · rw [hsame]
    exact .refl
  · rw [hmarked]
    exact .single (.marked id.slot constant hfree hslot)

/-- A text is added, and then a constant that refers to it and nothing else. -/
theorem addText {make : Utf8Id → Constant} (text : String)
    (hmake : ∀ name, (make name).references = [name.id]) :
    OnlyGrows (liftM (do intern (make (← addUtf8 text)) : StateM Pool ConstantId)) := by
  refine lift fun pool hvalid => ?_
  have htext : Grows pool (intern (.utf8 text) pool).2 := hvalid.grows_intern nofun
  refine htext.trans ((hvalid.grows htext).grows_intern ?_)
  rw [hmake]
  exact List.forall_mem_singleton.mpr (hvalid.owns_intern _)

/-- The two texts are there when the pair is interned. -/
theorem addNameAndType (name descriptor : String) :
    OnlyGrows (liftM (NameAndTypeId.id <$> Pool.addNameAndType name descriptor)) := by
  refine lift fun pool hvalid => ?_
  have hname : Grows pool (intern (.utf8 name) pool).2 := hvalid.grows_intern nofun
  have hnamed := hvalid.grows hname
  have hdescriptor : Grows (intern (.utf8 name) pool).2
      (intern (.utf8 descriptor) (intern (.utf8 name) pool).2).2 :=
    hnamed.grows_intern nofun
  refine (hname.trans hdescriptor).trans ((hnamed.grows hdescriptor).grows_intern ?_)
  -- The handle on the name is from one step earlier.
  have hextends : (intern (.utf8 descriptor) (intern (.utf8 name) pool).2).2.Extends
      (intern (.utf8 name) pool).2 := hdescriptor.changes.extends
  refine List.forall_mem_cons.mpr ⟨hextends.owns_eq (hvalid.owns_intern _), ?_⟩
  exact List.forall_mem_singleton.mpr (hnamed.owns_intern _)

/-- The references are replaced one after another, and each replacement only grows. -/
theorem mapReferencesM {replace : ConstantId → Edit ConstantId}
    (h : ∀ id, OnlyGrows (replace id)) (constant : Constant) :
    OnlyGrows (constant.mapReferencesM replace) := by
  cases constant with
  | utf8 _ | utf16 _ | integer _ | float _ | long _ | double _ => exact pure _
  | fieldRef _ _ | methodRef _ _ | interfaceMethodRef _ _ | nameAndType _ _ =>
    exact bind (h _) fun _ => bind (h _) fun _ => pure _
  | _ => exact bind (h _) fun _ => pure _

theorem ofExcept (result : Except Error α) : OnlyGrows (liftM result : Edit α) := by
  cases result with
  | ok value => exact pure value
  | error cause => exact throw cause

/-- A copy is added after the copies of its references, so these are there. -/
theorem copyFrom (source : Pool) (depth : Nat) (id : ConstantId) :
    OnlyGrows (Pool.copyFrom source depth id) := by
  induction depth generalizing id with
  | zero => exact throw _
  | succ depth ih =>
    exact bind (ofExcept _) fun constant => bind (mapReferencesM ih constant) fun copy => add copy

/-- The reference was looked up in the pool, so it is there. -/
theorem addMethodHandle (kind : HandleKind) (reference : ConstantId) :
    OnlyGrows (Pool.addMethodHandle kind reference) := by
  refine bind (fun pool _ => .refl) fun pool => bind (ofExcept _) fun constant => ?_
  split
  · exact add _
  · exact throw _

end OnlyGrows

/-- Every operation amounts to some steps. -/
theorem Valid.grows_after (h : pool.Valid) (operation : Operation) :
    Grows pool (operation.after pool) := by
  have honly : OnlyGrows operation.edit := by
    cases operation with
    | add constant => exact .add constant
    | addPriority constant =>
      exact .bind (.add constant) fun id => .bind (.setPriority id) fun _ => .pure id
    | setPriority id => exact .bind (.setPriority id) fun _ => .pure id
    | copy source id => exact .copyFrom source _ id
    | addMethodHandle kind reference => exact .addMethodHandle kind reference
    | addFieldRef _ _ | addMethodRef _ _ | addInterfaceMethodRef _ _ | addDynamic _ _
    | addInvokeDynamic _ _ => exact .add _
    | addUtf8 _ | addInteger _ | addFloat _ | addLong _ | addDouble _ =>
      exact .lift fun pool hvalid => hvalid.grows_intern nofun
    | addClass text | addString text | addMethodType text | addModule text | addPackage text =>
      exact .addText text fun _ => rfl
    | addNameAndType name descriptor => exact .addNameAndType name descriptor
  exact honly pool h

/-- What holds of every pool made empty or read, and is kept by every step, holds of every pool that
operations make. -/
theorem Reachable.induction_growth {P : Pool → Prop} (hempty : ∀ tag, P (Pool.empty tag))
    (hread : ∀ {tag raws constants}, Resolves tag raws constants → P (ofRead tag constants))
    (hgrowth : ∀ {pool later}, pool.Valid → P pool → Growth pool later → P later)
    (h : pool.Reachable) : P pool := by
  induction h with
  | empty tag => exact hempty tag
  | read hreads =>
    obtain ⟨raws, constants, hresolves, rfl, -, -⟩ := reads_read_iff.mp hreads
    exact hread hresolves
  | @operate pool operation h ih =>
    have hsteps := h.valid.grows_after operation
    generalize operation.after pool = last at hsteps
    induction hsteps with
    | refl => exact ih
    | tail hsteps hstep ih => exact hgrowth (h.valid.grows hsteps) ih hstep

/-! ## Why references come to an end -/

/-- What was read refers to what was read, of the kinds it has to be. What was added refers to what
was there before. -/
structure Grounded (pool : Pool) : Prop where
  read_leads : ∀ slot < pool.fixed, ∀ constant, pool.constants[slot]? = some constant →
    constant.RefersAs fun tags id => id.slot < pool.fixed ∧ pool.Leads tags id
  added_back : ∀ slot, pool.fixed ≤ slot → ∀ constant, pool.constants[slot]? = some constant →
    ∀ id ∈ constant.references, pool.owns id = true ∧ id.slot < slot

/-- Without constants there are no references. -/
theorem grounded_empty (tag : PoolTag) : (Pool.empty tag).Grounded where
  read_leads slot hslot := absurd hslot (Nat.not_lt_zero slot)
  added_back slot _ constant hconstant := by cases hconstant

/-- In a pool that was read everything was read. -/
theorem grounded_ofRead {tag : PoolTag} {raws : List RawConstant} {constants : List Constant}
    (h : Resolves tag raws constants) : (ofRead tag constants).Grounded where
  read_leads slot _ constant hconstant := by
    refine (h.typed.refersAs constant (List.mem_of_getElem? hconstant)).imp ?_
    intro tags id _ hleads
    have howns := hleads.owns
    rw [owns_iff, ← length_constants, constants_ofRead] at howns
    rw [fixed_ofRead]
    exact ⟨howns.2, hleads.leads trivial⟩
  added_back slot hslot constant hconstant := by
    have hlt := (List.getElem?_eq_some_iff.mp hconstant).1
    rw [constants_ofRead] at hlt
    rw [fixed_ofRead] at hslot
    omega

/-- The constants of later slots are those that a step added. -/
theorem Grounded.growth (h : pool.Grounded) (hvalid : pool.Valid) (hgrowth : Growth pool later) :
    later.Grounded := by
  have hextends := hgrowth.change.extends
  have hfixed := hvalid.fixed_le
  -- A slot of the earlier pool still holds its constant.
  have hsame (slot : Nat) (hslot : slot < pool.size) :
      later.constants[slot]? = pool.constants[slot]? := by
    obtain ⟨added, hadded⟩ := hextends.constants_eq
    rw [← hadded, List.getElem?_append_left (by rwa [length_constants])]
  constructor
  · intro slot hslot constant hconstant
    rw [hextends.fixed_eq] at hslot ⊢
    rw [hsame slot (by omega)] at hconstant
    refine (h.read_leads slot hslot constant hconstant).imp fun tags id _ hleads => ?_
    exact ⟨hleads.1, hleads.2.extends hextends⟩
  · intro slot hslot constant hconstant id hid
    rw [hextends.fixed_eq] at hslot
    by_cases hold : slot < pool.size
    · rw [hsame slot hold] at hconstant
      obtain ⟨howns, hlt⟩ := h.added_back slot hslot constant hconstant id hid
      exact ⟨hextends.owns_eq howns, hlt⟩
    · cases hgrowth with
      | added new hnew howns =>
        -- The only slot that is new is the last one.
        have hlast : slot = pool.constants.length ∧ constant = new := by
          rw [constants_withNew] at hconstant
          have hlt := (List.getElem?_eq_some_iff.mp hconstant).1
          rw [List.length_append, List.length_singleton, length_constants] at hlt
          obtain rfl : slot = pool.constants.length := by
            rw [length_constants]
            omega
          rw [List.getElem?_concat_length] at hconstant
          exact ⟨rfl, (Option.some.inj hconstant).symm⟩
        obtain ⟨rfl, rfl⟩ := hlast
        rw [length_constants]
        exact ⟨hextends.owns_eq (howns id hid), (owns_iff.mp (howns id hid)).2⟩
      | marked place other hfree hplace =>
        rw [constants_withPriority hplace] at hconstant
        have hlt := (List.getElem?_eq_some_iff.mp hconstant).1
        rw [length_constants] at hlt
        exact absurd hlt hold

/-- Every pool that can be reached is grounded. -/
theorem Reachable.grounded (h : pool.Reachable) : pool.Grounded :=
  h.induction_growth grounded_empty grounded_ofRead fun hvalid hgrounded hgrowth =>
    hgrounded.growth hvalid hgrowth

/-- The references of a pool's constants are its own handles. -/
theorem Grounded.owns_references (h : pool.Grounded) (hconstant : pool.constant id = .ok constant) :
    ∀ reference ∈ constant.references, pool.owns reference = true := by
  have hslot := (constant_eq_ok_iff.mp hconstant).2
  by_cases hread : id.slot < pool.fixed
  · have howns : constant.RefersAs fun _ reference => pool.owns reference = true := by
      refine (h.read_leads id.slot hread constant hslot).imp fun tags reference _ hreference => ?_
      obtain ⟨found, hfound, -⟩ := hreference.2
      exact exists_constant_iff.mp ⟨found, hfound⟩
    exact Constant.refersAs_iff.mp howns
  · intro reference hreference
    exact (h.added_back id.slot (Nat.le_of_not_lt hread) constant hslot reference hreference).1

end Pool

/-! ## A number that references lower -/

/-- How deep the references of a constant go, if they lead to the kinds they have to. -/
def ConstantTag.height (tag : ConstantTag) : Nat :=
  if tag = .methodHandle then 3
  else if tag ∈ [.fieldRef, .methodRef, .interfaceMethodRef, .dynamic, .invokeDynamic] then 2
  else if tag ∈ [.utf8, .integer, .float, .long, .double] then 0
  else 1

/-- No kind is more than three references away from one without references. -/
theorem ConstantTag.height_le (tag : ConstantTag) : tag.height ≤ 3 := by
  unfold height
  split_ifs <;> decide

/-- The kinds that a reference has to lead to are lower than the kind of the constant. -/
theorem Constant.refersAs_lower (constant : Constant) :
    constant.RefersAs fun tags _ => ∀ tag ∈ tags, tag.height < constant.tag.height := by
  have hall : constant.RefersAs fun tags _ =>
      (tags.all fun tag => tag.height < constant.tag.height) = true := by
    cases constant with
    | utf8 _ | utf16 _ | integer _ | float _ | long _ | double _ => trivial
    | fieldRef _ _ | methodRef _ _ | interfaceMethodRef _ _ | nameAndType _ _ => exact ⟨rfl, rfl⟩
    | methodHandle kind _ => cases kind <;> rfl
    | _ => rfl
  refine hall.imp fun tags _ _ hlower tag htag => ?_
  exact of_decide_eq_true (List.all_eq_true.mp hlower tag htag)

/-- What is said of all references in two ways is said of them in both. -/
theorem Constant.RefersAs.and {leads others : List ConstantTag → ConstantId → Prop}
    {constant : Constant} (h : constant.RefersAs leads) (hothers : constant.RefersAs others) :
    constant.RefersAs fun tags id => leads tags id ∧ others tags id := by
  cases constant with
  | utf8 _ | utf16 _ | integer _ | float _ | long _ | double _ => trivial
  | fieldRef _ _ | methodRef _ _ | interfaceMethodRef _ _ | nameAndType _ _ =>
    exact ⟨⟨h.1, hothers.1⟩, h.2, hothers.2⟩
  | _ => exact ⟨h, hothers⟩

namespace Pool

variable {pool : Pool} {constant : Constant} {id reference : ConstantId}

/-- A bound on how deep the references of a constant go: by its kind if it was read, and else by its
slot, behind the four heights of kinds. -/
def rank (pool : Pool) (id : ConstantId) : Nat :=
  if id.slot < pool.fixed then (pool.constants[id.slot]?).elim 0 fun constant => constant.tag.height
  else id.slot + 4

/-- One constant refers to another. -/
def RefersTo (pool : Pool) (reference id : ConstantId) : Prop :=
  ∃ constant, pool.constant id = .ok constant ∧ reference ∈ constant.references

/-- A constant that was read has at most rank 3. -/
theorem rank_le_of_read (hread : id.slot < pool.fixed) : pool.rank id ≤ 3 := by
  rw [rank, if_pos hread]
  cases pool.constants[id.slot]? with
  | none => exact Nat.zero_le 3
  | some constant => exact constant.tag.height_le

/-- Among the constants that were read the kind decides on the rank. -/
theorem rank_of_read (hread : id.slot < pool.fixed) (hconstant : pool.constant id = .ok constant) :
    pool.rank id = constant.tag.height := by
  rw [rank, if_pos hread, (constant_eq_ok_iff.mp hconstant).2]
  rfl

/-- The bound that copying works with is enough. -/
theorem rank_lt_size (howns : pool.owns id = true) : pool.rank id < pool.size + 4 := by
  have hslot := (owns_iff.mp howns).2
  by_cases hread : id.slot < pool.fixed
  · have hle := rank_le_of_read hread
    omega
  · rw [rank, if_neg hread]
    omega

/-- Each reference lowers the rank. -/
theorem Grounded.rank_lt (h : pool.Grounded) (hrefers : pool.RefersTo reference id) :
    pool.rank reference < pool.rank id := by
  obtain ⟨constant, hconstant, hmem⟩ := hrefers
  have hslot := (constant_eq_ok_iff.mp hconstant).2
  by_cases hread : id.slot < pool.fixed
  · rw [rank_of_read hread hconstant]
    have hleads := h.read_leads id.slot hread constant hslot
    have hlower : constant.RefersAs fun _ reference =>
        pool.rank reference < constant.tag.height := by
      refine (hleads.and constant.refersAs_lower).imp fun tags other _ hother => ?_
      obtain ⟨⟨hotherRead, found, hfound, htag⟩, hheight⟩ := hother
      rw [rank_of_read hotherRead hfound]
      exact hheight found.tag htag
    exact Constant.refersAs_iff.mp hlower reference hmem
  · have hback := (h.added_back id.slot (Nat.le_of_not_lt hread) constant hslot reference hmem).2
    rw [rank.eq_def pool id, if_neg hread]
    by_cases hreferenceRead : reference.slot < pool.fixed
    · have hle := rank_le_of_read hreferenceRead
      omega
    · rw [rank, if_neg hreferenceRead]
      omega

/-- Following references comes to an end. -/
theorem Grounded.wellFounded_refersTo (h : pool.Grounded) : WellFounded pool.RefersTo :=
  Subrelation.wf h.rank_lt (InvImage.wf pool.rank Nat.lt_wfRel.wf)

end Pool

end ClassFormat
