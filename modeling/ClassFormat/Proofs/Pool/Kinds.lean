import ClassFormat.Proofs.Pool.Handle
import ClassFormat.Proofs.Pool.Reading
import ClassFormat.Proofs.Pool.Run
/-!
# Kinds of constants

A reference has to lead to a constant of a certain kind, such as a text or a class. Reading a pool
checks it. Whoever changes a pool gets handles of a kind from the operations that add constants of
that kind, so it is kept by every operation that is given such handles: `Built` are the pools that
come about in this way, and `Built.typed` says that all of their references lead where they have to.

What a method handle refers to is a handle of no particular kind, so one may mind some kinds of
constants only: `BuiltFor kinds` are the pools that come about when the references of constants of
these kinds are minded, and of all others it is only known that they lead to some constant.

`Leaves kinds action pool described` says that an action takes a typed pool to a typed pool with
more constants, and describes its answer there.
-/

namespace ClassFormat

/-- Whether each reference of a constant leads to a constant with one of the tags wanted for it. -/
def Constant.RefersAs (leads : List ConstantTag → ConstantId → Prop) : Constant → Prop
  | utf8 _ | utf16 _ | integer _ | float _ | long _ | double _ => True
  | classInfo name | string name | methodType name | moduleInfo name | packageInfo name =>
    leads [.utf8] name.id
  | fieldRef owner member | methodRef owner member | interfaceMethodRef owner member =>
    leads [.classInfo] owner.id ∧ leads [.nameAndType] member.id
  | nameAndType name descriptor => leads [.utf8] name.id ∧ leads [.utf8] descriptor.id
  | methodHandle kind reference => leads kind.referenceTags reference
  | dynamic _ member | invokeDynamic _ member => leads [.nameAndType] member.id

/-- Other ways to lead matter only for the references that the constant has. -/
theorem Constant.RefersAs.imp {leads others : List ConstantTag → ConstantId → Prop}
    {constant : Constant} (h : constant.RefersAs leads)
    (himp : ∀ tags, ∀ id ∈ constant.references, leads tags id → others tags id) :
    constant.RefersAs others := by
  cases constant with
  | utf8 _ | utf16 _ | integer _ | float _ | long _ | double _ => trivial
  | classInfo name | string name | methodType name | moduleInfo name | packageInfo name =>
    exact himp _ _ (List.mem_singleton_self _) h
  | fieldRef owner member | methodRef owner member | interfaceMethodRef owner member =>
    exact ⟨himp _ _ (List.mem_cons_self ..) h.1,
      himp _ _ (List.mem_cons_of_mem _ (List.mem_singleton_self _)) h.2⟩
  | nameAndType name descriptor =>
    exact ⟨himp _ _ (List.mem_cons_self ..) h.1,
      himp _ _ (List.mem_cons_of_mem _ (List.mem_singleton_self _)) h.2⟩
  | methodHandle kind reference => exact himp _ _ (List.mem_singleton_self _) h
  | dynamic bootstrap member | invokeDynamic bootstrap member =>
    exact himp _ _ (List.mem_singleton_self _) h

/-- What does not depend on the kinds that are wanted is said of the references as a list. -/
theorem Constant.refersAs_iff {P : ConstantId → Prop} {constant : Constant} :
    (constant.RefersAs fun _ id => P id) ↔ ∀ id ∈ constant.references, P id := by
  cases constant <;> simp [RefersAs, references]

/-- A raw constant is resolved to one whose references lead where they were looked up. -/
theorem RawConstant.refersAs_of_resolve {leads : List ConstantTag → ConstantId → Prop}
    {lookup : Lookup} {raw : RawConstant} {constant : Constant}
    (hlookup : ∀ tags role index id, lookup tags role index = .ok id → leads tags id)
    (hcanonical : raw.Canonical) (h : raw.resolve lookup = .ok constant) :
    constant.RefersAs leads := by
  cases raw with
  | leaf inner =>
    cases h
    cases constant <;> trivial
  | classInfo name | string name | methodType name | moduleInfo name | packageInfo name =>
    simp only [resolve, bind_eq_ok_iff, pure_eq_ok_iff, resolveUtf8_eq_ok_iff] at h
    obtain ⟨id, hid, rfl⟩ := h
    exact hlookup _ _ _ _ hid
  | fieldRef owner member | methodRef owner member | interfaceMethodRef owner member =>
    simp only [resolve, bind_eq_ok_iff, pure_eq_ok_iff, resolveClass_eq_ok_iff,
      resolveMember_eq_ok_iff] at h
    obtain ⟨owner, howner, member, hmember, rfl⟩ := h
    exact ⟨hlookup _ _ _ _ howner, hlookup _ _ _ _ hmember⟩
  | nameAndType name descriptor =>
    simp only [resolve, bind_eq_ok_iff, pure_eq_ok_iff, resolveUtf8_eq_ok_iff] at h
    obtain ⟨name, hname, descriptor, hdescriptor, rfl⟩ := h
    exact ⟨hlookup _ _ _ _ hname, hlookup _ _ _ _ hdescriptor⟩
  | methodHandle kind reference =>
    simp only [resolve, bind_eq_ok_iff, pure_eq_ok_iff] at h
    obtain ⟨id, hid, rfl⟩ := h
    exact hlookup _ _ _ _ hid
  | dynamic bootstrap member | invokeDynamic bootstrap member =>
    simp only [resolve, bind_eq_ok_iff, pure_eq_ok_iff, resolveMember_eq_ok_iff] at h
    obtain ⟨id, hid, rfl⟩ := h
    exact hlookup _ _ _ _ hid

/-- What goes along with an element stands at its place. -/
theorem getElem?_of_forall₂ {α β : Type} {R : α → β → Prop} {elements : List α} {others : List β}
    (h : List.Forall₂ R elements others) {k : Nat} {element : α}
    (hget : elements[k]? = some element) : ∃ other, others[k]? = some other ∧ R element other := by
  induction h generalizing k with
  | nil => cases hget
  | cons hfirst _ ih =>
    cases k with
    | zero =>
      cases hget
      exact ⟨_, rfl, hfirst⟩
    | succ k => exact ih hget

namespace Pool

variable {pool later : Pool} {tags : List ConstantTag} {id : ConstantId} {constant : Constant}

/-- Whether a handle is on a constant with one of these tags. -/
def Leads (pool : Pool) (tags : List ConstantTag) (id : ConstantId) : Prop :=
  ∃ constant, pool.constant id = .ok constant ∧ constant.tag ∈ tags

/-- Whether a handle is on a constant, which has one of these tags if that is minded. -/
def LeadsIf (minded : Prop) (pool : Pool) (tags : List ConstantTag) (id : ConstantId) : Prop :=
  ∃ constant, pool.constant id = .ok constant ∧ (minded → constant.tag ∈ tags)

/-- Whether no reference in a pool is on a constant of a kind that it must not be on. -/
def Sound (pool : Pool) : Prop := ∀ constant ∈ pool.constants, constant.RefersAs pool.Keeps

/-- Whether it is so for the references of constants of some kinds. -/
def SoundFor (kinds : ConstantTag → Prop) (pool : Pool) : Prop :=
  ∀ constant ∈ pool.constants, kinds constant.tag → constant.RefersAs pool.Keeps

/-- A valid pool whose references all lead to constants, those of constants of some kinds to
constants of the kinds they have to be. -/
structure TypedFor (kinds : ConstantTag → Prop) (pool : Pool) : Prop where
  valid : pool.Valid
  refersAs : ∀ constant ∈ pool.constants,
    constant.RefersAs fun tags id => pool.LeadsIf (kinds constant.tag) tags id

/-- A valid pool whose references all lead to constants of the kinds they have to be. -/
def Typed (pool : Pool) : Prop := pool.TypedFor fun _ => True

/-- A handle that leads to a constant of one of the kinds leads to no other constant. -/
theorem Leads.keeps (h : pool.Leads tags id) : pool.Keeps tags id := by
  obtain ⟨constant, hconstant, htag⟩ := h
  intro other hother
  rw [hconstant] at hother
  cases hother
  exact htag

/-- A handle that the pool gave out leads to the kinds it does not avoid. -/
theorem Keeps.leads (h : pool.Keeps tags id) (howns : pool.owns id = true) :
    pool.Leads tags id := by
  obtain ⟨constant, hconstant⟩ := exists_constant_iff.mpr howns
  exact ⟨constant, hconstant, h constant hconstant⟩

/-- Where a handle leads to, it leads to in any later state of the pool. -/
theorem Leads.extends (h : pool.Leads tags id) (hextends : later.Extends pool) :
    later.Leads tags id := by
  obtain ⟨constant, hconstant, htag⟩ := h
  exact ⟨constant, hextends.constant_eq hconstant, htag⟩

theorem Leads.leadsIf {minded : Prop} (h : pool.Leads tags id) : pool.LeadsIf minded tags id := by
  obtain ⟨constant, hconstant, htag⟩ := h
  exact ⟨constant, hconstant, fun _ => htag⟩

/-- If kinds are minded, the constant is of one of them. -/
theorem LeadsIf.leads {minded : Prop} (h : pool.LeadsIf minded tags id) (hminded : minded) :
    pool.Leads tags id := by
  obtain ⟨constant, hconstant, htag⟩ := h
  exact ⟨constant, hconstant, htag hminded⟩

theorem LeadsIf.owns {minded : Prop} (h : pool.LeadsIf minded tags id) : pool.owns id = true :=
  exists_constant_iff.mp ⟨_, h.choose_spec.1⟩

/-- Where a handle leads to if kinds are minded, it leads to in any later state. -/
theorem LeadsIf.extends {minded : Prop} (h : pool.LeadsIf minded tags id)
    (hextends : later.Extends pool) : later.LeadsIf minded tags id := by
  obtain ⟨constant, hconstant, htag⟩ := h
  exact ⟨constant, hextends.constant_eq hconstant, htag⟩

/-- To mind fewer kinds is to know less. -/
theorem TypedFor.imp {kinds others : ConstantTag → Prop} (h : pool.TypedFor kinds)
    (himp : ∀ tag, others tag → kinds tag) : pool.TypedFor others where
  valid := h.valid
  refersAs constant hconstant := by
    refine (h.refersAs constant hconstant).imp fun tags id _ hleads => ?_
    obtain ⟨found, hfound, htag⟩ := hleads
    exact ⟨found, hfound, fun hother => htag (himp _ hother)⟩

/-- In a typed pool every reference is on a constant of a kind it may be on. -/
theorem TypedFor.soundFor {kinds : ConstantTag → Prop} (h : pool.TypedFor kinds) :
    pool.SoundFor kinds := fun constant hconstant hkind =>
  (h.refersAs constant hconstant).imp fun _ _ _ hleads => (hleads.leads hkind).keeps

/-- The references in a pool are on its own constants. -/
theorem TypedFor.owns_references {kinds : ConstantTag → Prop} (h : pool.TypedFor kinds)
    (hconstant : constant ∈ pool.constants) : ∀ id ∈ constant.references, pool.owns id = true := by
  have howns := (h.refersAs constant hconstant).imp fun _ _ _ hleads => hleads.owns
  exact Constant.refersAs_iff.mp howns

theorem Typed.sound (h : pool.Typed) : pool.Sound :=
  fun constant hconstant => TypedFor.soundFor h constant hconstant trivial

/-- A handle on a string has its text. -/
theorem text_of_constant {name : Utf8Id} {text : String}
    (hname : pool.constant name.id = .ok (.utf8 text)) : pool.text name = .ok text := by
  rw [Pool.text, hname]
  rfl

/-- Only a handle on a string has a text. -/
theorem constant_of_text {name : Utf8Id} {text : String} (h : pool.text name = .ok text) :
    pool.constant name.id = .ok (.utf8 text) := by
  obtain ⟨constant, hconstant, htext⟩ := bind_eq_ok_iff.mp h
  split at htext
  · cases htext
    exact hconstant
  · cases htext
  · cases htext

/-- A class refers to its name. -/
theorem Leads.exists_classInfo {handle : ConstantId} (h : pool.Leads [.classInfo] handle) :
    ∃ name, pool.constant handle = .ok (.classInfo name) := by
  obtain ⟨constant, hconstant, htag⟩ := h
  cases constant with
  | classInfo name => exact ⟨name, hconstant⟩
  | _ =>
    dsimp only [Constant.tag] at htag
    exact absurd htag (by decide)

/-- A text is a string, or units that are none. -/
theorem Leads.text_cases {handle : ConstantId} (h : pool.Leads [.utf8] handle) :
    (∃ text, pool.constant handle = .ok (.utf8 text))
      ∨ ∃ units, pool.constant handle = .ok (.utf16 units) := by
  obtain ⟨constant, hconstant, htag⟩ := h
  cases constant with
  | utf8 text => exact .inl ⟨text, hconstant⟩
  | utf16 units => exact .inr ⟨units, hconstant⟩
  | _ =>
    dsimp only [Constant.tag] at htag
    exact absurd htag (by decide)

/-- Only text that no string has keeps a handle on a text from having one. -/
theorem Leads.text_ok_or_unpaired {name : Utf8Id} (h : pool.Leads [.utf8] name.id) :
    (∃ text, pool.text name = .ok text)
      ∨ ∃ units, pool.constant name.id = .ok (.utf16 units)
        ∧ pool.text name = .error (.unpairedSurrogates name.id) := by
  rcases h.text_cases with ⟨text, htext⟩ | ⟨units, hunits⟩
  · exact .inl ⟨text, text_of_constant htext⟩
  · refine .inr ⟨units, hunits, ?_⟩
    rw [Pool.text, hunits]
    rfl

/-- Where classes refer to text, only a name that no string has keeps a class from having one. -/
theorem TypedFor.className_ok_or_unpaired {kinds : ConstantTag → Prop} {owner : ClassId}
    (h : pool.TypedFor kinds) (hkinds : kinds .classInfo)
    (hclass : pool.Leads [.classInfo] owner.id) :
    ∃ name, pool.constant owner.id = .ok (.classInfo name)
      ∧ ((∃ text, pool.className owner = .ok text)
        ∨ ∃ units, pool.constant name.id = .ok (.utf16 units)
          ∧ pool.className owner = .error (.unpairedSurrogates name.id)) := by
  obtain ⟨name, hconstant⟩ := hclass.exists_classInfo
  have hmem : Constant.classInfo name ∈ pool.constants :=
    List.mem_of_getElem? (constant_eq_ok_iff.mp hconstant).2
  have hlookup : pool.className owner = pool.text name := by
    rw [className, hconstant]
    rfl
  have hname : pool.Leads [.utf8] name.id := (h.refersAs _ hmem).leads hkinds
  rw [hlookup]
  exact ⟨name, hconstant, hname.text_ok_or_unpaired⟩

/-- A handle that is looked up by its index is on a constant of a wanted kind. -/
theorem leads_of_idWithTag {role : ConstantRole} {index : UInt16}
    (h : pool.idWithTag tags role index = .ok id) : pool.Leads tags id := by
  obtain ⟨found, -, hfound⟩ := bind_eq_ok_iff.mp h
  obtain ⟨constant, hconstant, htag⟩ := bind_eq_ok_iff.mp hfound
  split at htag
  · rename_i hmem
    cases htag
    exact ⟨constant, hconstant, hmem⟩
  · cases htag

/-- What is found as text is text. -/
theorem leads_of_utf8At {index : UInt16} {name : Utf8Id} (h : pool.utf8At index = .ok name) :
    pool.Leads [.utf8] name.id := by
  obtain ⟨id, hid, rfl⟩ := map_eq_ok_iff.mp h
  exact leads_of_idWithTag hid

/-- What is found as a class is a class. -/
theorem leads_of_classAt {index : UInt16} {owner : ClassId} (h : pool.classAt index = .ok owner) :
    pool.Leads [.classInfo] owner.id := by
  obtain ⟨id, hid, rfl⟩ := map_eq_ok_iff.mp h
  exact leads_of_idWithTag hid

/-- What is found as a name with a descriptor is one. -/
theorem leads_of_nameAndTypeAt {index : UInt16} {member : NameAndTypeId}
    (h : pool.nameAndTypeAt index = .ok member) : pool.Leads [.nameAndType] member.id := by
  obtain ⟨id, hid, rfl⟩ := map_eq_ok_iff.mp h
  exact leads_of_idWithTag hid

/-! ## Pools that are made -/

/-- A pool without constants has no reference that could be wrong. -/
theorem typed_empty (tag : PoolTag) : (Pool.empty tag).Typed where
  valid := valid_empty tag
  refersAs constant hconstant := by cases hconstant

section

variable {tag : PoolTag} {raws : List RawConstant} {constants : List Constant}

/-- A reference that was looked up leads to a constant of the wanted kind. -/
theorem Resolves.leads_of_lookup (h : Resolves tag raws constants) {role : ConstantRole}
    {index : UInt16} (hlookup : (RawPool.ofConstants raws).lookup tag tags role index = .ok id) :
    (ofRead tag constants).Leads tags id := by
  obtain ⟨raw, hget, htag, hpool⟩ := RawPool.lookup_ofConstants_iff.mp hlookup
  obtain ⟨hraw, -⟩ := Layout.getElem?_place_eq_some.mp hget
  obtain ⟨constant, hconstant, hresolve⟩ := getElem?_of_forall₂ h.resolved hraw
  refine ⟨constant, constant_eq_ok_iff.mpr ⟨by rw [hpool, tag_ofRead], ?_⟩, ?_⟩
  · rw [constants_ofRead, hconstant]
  · rw [(RawConstant.tag_width_of_resolve hresolve).1]
    exact htag

/-- The references of a pool that was read are of the kinds they have to be. -/
theorem Resolves.typed (h : Resolves tag raws constants) : (ofRead tag constants).Typed where
  valid := valid_ofRead tag constants
  refersAs constant hconstant := by
    rw [constants_ofRead] at hconstant
    obtain ⟨k, hget⟩ := List.mem_iff_getElem?.mp hconstant
    obtain ⟨raw, hraw, hresolve⟩ := getElem?_of_forall₂ h.resolved.flip hget
    exact RawConstant.refersAs_of_resolve
      (fun _ _ _ _ hlookup => (h.leads_of_lookup hlookup).leadsIf)
      (h.canonical raw (List.mem_of_getElem? hraw)) hresolve

/-- A name and the class of that name are read of a text and an index. -/
theorem resolves_named : Resolves ⟨0⟩ [.leaf (.utf8 "A"), .classInfo 1]
    [.utf8 "A", .classInfo ⟨⟨⟨0⟩, 0⟩⟩] := by
  refine ⟨List.forall_mem_cons.mpr ⟨?_, List.forall_mem_singleton.mpr trivial⟩, by decide,
    .cons rfl (.cons rfl .nil)⟩
  show (Text.ModifiedUtf8.encode (Text.Utf16.ofString "A")).length < 2 ^ 16
  decide

/-- So is a class whose name has a surrogate without its other half. -/
theorem resolves_unpaired : Resolves ⟨0⟩ [.leaf (.utf16 [0xd800]), .classInfo 1]
    [.utf16 [0xd800], .classInfo ⟨⟨⟨0⟩, 0⟩⟩] := by
  refine ⟨List.forall_mem_cons.mpr ⟨?_, List.forall_mem_singleton.mpr trivial⟩, by decide,
    .cons rfl (.cons rfl .nil)⟩
  show (Text.ModifiedUtf8.encode [0xd800]).length < 2 ^ 16 ∧ Text.Utf16.toString? [0xd800] = none
  decide

/-- The pool of constants that raw ones are resolved to is read of the bytes of these. -/
theorem Resolves.reachable (h : Resolves tag raws constants) :
    (ofRead tag constants).Reachable := by
  have hread : (Pool.read tag).Reads _ (ofRead tag constants) [] _ :=
    reads_read_iff.mpr ⟨raws, constants, h, rfl, rfl, rfl⟩
  exact .read hread

end

/-! ## What a step keeps -/

variable {kinds : ConstantTag → Prop}

/-- A new constant keeps the pool typed if its own references are right. -/
theorem TypedFor.withNew (h : pool.TypedFor kinds) (hnew : pool.interned[constant]? = none)
    (hrefers : constant.RefersAs (pool.LeadsIf (kinds constant.tag))) :
    (pool.withNew constant).TypedFor kinds where
  valid := h.valid.withNew hnew
  refersAs := by
    have hextends := (Change.added constant hnew).extends
    rw [constants_withNew]
    refine List.forall_mem_append.mpr ⟨fun other hother => ?_, List.forall_mem_singleton.mpr ?_⟩
    · exact (h.refersAs other hother).imp fun _ _ _ hleads => hleads.extends hextends
    · exact hrefers.imp fun _ _ _ hleads => hleads.extends hextends

/-- Marking a constant keeps the pool typed. -/
theorem TypedFor.withPriority (h : pool.TypedFor kinds) {slot : Nat} (hfree : pool.fixed ≤ slot)
    (hslot : pool.entries[slot]? = some ⟨constant, false⟩) :
    (pool.withPriority slot constant).TypedFor kinds where
  valid := h.valid.withPriority hslot
  refersAs := by
    have hextends := (Change.marked slot constant hfree hslot).extends
    rw [constants_withPriority hslot]
    exact fun other hother =>
      (h.refersAs other hother).imp fun _ _ _ hleads => hleads.extends hextends

/-! ## What actions answer -/

/-- An action leaves a typed pool with all constants that were there, and its answer is as described
in that pool. -/
def Leaves {α : Type} (kinds : ConstantTag → Prop) (action : StateM Pool α) (pool : Pool)
    (described : α → Pool → Prop) : Prop :=
  (action.run pool).2.TypedFor kinds ∧ (action.run pool).2.Extends pool
    ∧ described (action.run pool).1 (action.run pool).2

/-- Describes the answer of an edit that does not fail. -/
def Answered {α : Type} (described : α → Pool → Prop) (result : Except Error α) (later : Pool) :
    Prop :=
  ∀ value, result = .ok value → described value later

namespace Leaves

variable {α β : Type} {described : α → Pool → Prop} {behind : β → Pool → Prop}

theorem pure {value : α} (h : pool.TypedFor kinds) (hvalue : described value pool) :
    Leaves kinds (Pure.pure value) pool described :=
  ⟨h, .refl pool, hvalue⟩

/-- What an action leaves is what the next one starts with. -/
theorem bind {action : StateM Pool α} {next : α → StateM Pool β}
    (h : Leaves kinds action pool described)
    (hnext : ∀ value later, later.TypedFor kinds → later.Extends pool → described value later →
      Leaves kinds (next value) later behind) :
    Leaves kinds (action >>= next) pool behind := by
  obtain ⟨htyped, hextends, hdescribed⟩ := h
  obtain ⟨hlast, hlastExtends, hbehind⟩ := hnext _ _ htyped hextends hdescribed
  exact ⟨hlast, hlastExtends.trans hextends, hbehind⟩

theorem map {action : StateM Pool α} {f : α → β} (h : Leaves kinds action pool described)
    (hf : ∀ value later, described value later → behind (f value) later) :
    Leaves kinds (f <$> action) pool behind :=
  ⟨h.1, h.2.1, hf _ _ h.2.2⟩

/-- What is said of the answer may be weakened. -/
theorem imp {action : StateM Pool α} {others : α → Pool → Prop}
    (h : Leaves kinds action pool described)
    (himp : ∀ value later, later.Extends pool → described value later → others value later) :
    Leaves kinds action pool others :=
  ⟨h.1, h.2.1, himp _ _ h.2.1 h.2.2⟩

theorem throw {cause : Error} (h : pool.TypedFor kinds) :
    Leaves kinds (MonadExcept.throw cause : Edit α).run pool (Answered described) :=
  ⟨h, .refl pool, fun _ hvalue => nomatch hvalue⟩

theorem editPure {value : α} (h : pool.TypedFor kinds) (hvalue : described value pool) :
    Leaves kinds (Pure.pure value : Edit α).run pool (Answered described) :=
  pure h fun _ hother => by
    cases hother
    exact hvalue

/-- An edit that fails leaves a typed pool, too. -/
theorem editBind {edit : Edit α} {next : α → Edit β}
    (h : Leaves kinds edit.run pool (Answered described))
    (hnext : ∀ value later, later.TypedFor kinds → later.Extends pool → described value later →
      Leaves kinds (next value).run later (Answered behind)) :
    Leaves kinds (edit >>= next).run pool (Answered behind) := by
  rw [ExceptT.run_bind]
  refine bind h ?_
  rintro (cause | value) later htyped hextends hdescribed
  · exact pure htyped fun _ hother => nomatch hother
  · exact hnext value later htyped hextends (hdescribed value rfl)

theorem editMap {edit : Edit α} {f : α → β} (h : Leaves kinds edit.run pool (Answered described))
    (hf : ∀ value later, described value later → behind (f value) later) :
    Leaves kinds (f <$> edit).run pool (Answered behind) := by
  rw [← bind_pure_comp]
  exact editBind h fun value later htyped _ hdescribed =>
    editPure htyped (hf value later hdescribed)

theorem lift {action : StateM Pool α} (h : Leaves kinds action pool described) :
    Leaves kinds (liftM action : Edit α).run pool (Answered described) := by
  refine map h ?_
  intro value later hdescribed other hother
  cases hother
  exact hdescribed

/-! ### Adding constants -/

/-- Interning leaves a typed pool if the references of the constant are right. -/
theorem intern (h : pool.TypedFor kinds)
    (hrefers : constant.RefersAs (pool.LeadsIf (kinds constant.tag))) :
    Leaves kinds (Pool.intern constant) pool fun id later => later.constant id = .ok constant := by
  rcases h.valid.intern_cases constant with ⟨id, hintern, hconstant⟩ | ⟨hnew, hintern⟩
  · have hrun : (Pool.intern constant).run pool = (id, pool) := hintern
    rw [Leaves, hrun]
    exact ⟨h, .refl pool, hconstant⟩
  · have hrun : (Pool.intern constant).run pool = (⟨pool.tag, pool.size⟩, pool.withNew constant) :=
      hintern
    rw [Leaves, hrun]
    exact ⟨h.withNew hnew hrefers, (Change.added constant hnew).extends, constant_withNew⟩

/-- Texts have no references. -/
theorem addUtf8 (h : pool.TypedFor kinds) (text : String) :
    Leaves kinds (Pool.addUtf8 text) pool fun name later =>
      later.constant name.id = .ok (.utf8 text) :=
  map (intern h trivial) fun _ _ hconstant => hconstant

/-- Adding a text and then a constant that refers to it. -/
theorem addText (h : pool.TypedFor kinds) {make : Utf8Id → Constant} (text : String)
    (hmake : ∀ leads name, leads [.utf8] name.id → (make name).RefersAs leads) :
    Leaves kinds (do Pool.intern (make (← Pool.addUtf8 text))) pool fun id later =>
      ∃ name, later.constant id = .ok (make name) ∧ later.constant name.id = .ok (.utf8 text) := by
  refine bind (addUtf8 h text) fun name later htyped _ hname => ?_
  have hleads : later.Leads [.utf8] name.id := ⟨_, hname, List.mem_singleton_self _⟩
  refine imp (intern htyped (hmake _ _ hleads.leadsIf)) fun id last hextends hconstant => ?_
  exact ⟨name, hconstant, hextends.constant_eq hname⟩

/-- The class refers to the text that was added before it. -/
theorem addClass (h : pool.TypedFor kinds) (name : String) :
    Leaves kinds (Pool.addClass name) pool fun id later => later.className id = .ok name := by
  have hadd := @addText pool kinds h .classInfo name fun _ _ hleads => hleads
  refine map hadd ?_
  rintro id later ⟨nameId, hconstant, hname⟩
  rw [className, hconstant]
  exact text_of_constant hname

/-- The pair refers to the two texts that were added before it. -/
theorem addNameAndType (h : pool.TypedFor kinds) (name descriptor : String) :
    Leaves kinds (Pool.addNameAndType name descriptor) pool fun id later =>
      later.Leads [.nameAndType] id.id := by
  refine bind (addUtf8 h name) fun nameId named hnamed _ hname => ?_
  refine bind (addUtf8 hnamed descriptor) fun descriptorId later hlater hextends hdescriptor => ?_
  have hname : later.Leads [.utf8] nameId.id :=
    ⟨_, hextends.constant_eq hname, List.mem_singleton_self _⟩
  have hdescriptor : later.Leads [.utf8] descriptorId.id :=
    ⟨_, hdescriptor, List.mem_singleton_self _⟩
  refine bind (intern hlater ⟨hname.leadsIf, hdescriptor.leadsIf⟩) ?_
  intro id last hlast _ hconstant
  exact pure hlast ⟨_, hconstant, List.mem_singleton_self _⟩

/-! ### Edits -/

/-- References are checked without a change, and nothing is added if one of them is refused. -/
theorem add (h : pool.TypedFor kinds)
    (hkeeps : kinds constant.tag → constant.RefersAs pool.Keeps) :
    Leaves kinds (Pool.add constant).run pool
      (Answered fun id later => later.constant id = .ok constant) := by
  show ((Pool.add constant).apply pool).2.TypedFor kinds
    ∧ ((Pool.add constant).apply pool).2.Extends pool
    ∧ Answered _ ((Pool.add constant).apply pool).1 ((Pool.add constant).apply pool).2
  rcases add_cases constant pool with ⟨id, -, -, hfail⟩ | ⟨howns, hadd⟩
  · rw [hfail]
    exact ⟨h, .refl pool, nofun⟩
  · -- A handle that passed the check is on a constant, which is of a kind it has to be.
    have hrefers : constant.RefersAs (pool.LeadsIf (kinds constant.tag)) := by
      by_cases hkind : kinds constant.tag
      · exact (hkeeps hkind).imp fun tags id hid hkeep => (hkeep.leads (howns id hid)).leadsIf
      · refine (Constant.refersAs_iff.mpr howns).imp fun tags id _ hid => ?_
        obtain ⟨found, hfound⟩ := exists_constant_iff.mpr hid
        exact ⟨found, hfound, fun hother => absurd hother hkind⟩
    obtain ⟨htyped, hextends, hconstant⟩ := intern h hrefers
    rw [hadd]
    refine ⟨htyped, hextends, ?_⟩
    rintro id hid
    cases hid
    exact hconstant

/-- Marking does not touch references. -/
theorem setPriority (h : pool.TypedFor kinds) (id : ConstantId) :
    Leaves kinds (Pool.setPriority id).run pool (Answered fun _ _ => True) := by
  show ((Pool.setPriority id).apply pool).2.TypedFor kinds
    ∧ ((Pool.setPriority id).apply pool).2.Extends pool
    ∧ Answered _ ((Pool.setPriority id).apply pool).1 ((Pool.setPriority id).apply pool).2
  rcases setPriority_cases id pool with hsame | ⟨constant, hfree, hslot, hmarked⟩
  · rw [hsame]
    exact ⟨h, .refl pool, fun _ _ => trivial⟩
  · rw [hmarked]
    have hchange := Change.marked id.slot constant hfree hslot
    exact ⟨h.withPriority hfree hslot, hchange.extends, fun _ _ => trivial⟩

/-- Adding a constant as priority leaves a typed pool if adding it does. -/
theorem addPriority (h : pool.TypedFor kinds)
    (hkeeps : kinds constant.tag → constant.RefersAs pool.Keeps) :
    Leaves kinds (Pool.addPriority constant).run pool
      (Answered fun id later => later.constant id = .ok constant) := by
  refine editBind (add h hkeeps) fun id later hlater _ hconstant => ?_
  refine editBind (setPriority hlater id) fun _ last hlast hextends _ => ?_
  exact editPure hlast (hextends.constant_eq hconstant)

/-- What a method handle refers to is checked, so nothing has to be known of it. -/
theorem addMethodHandle (h : pool.TypedFor kinds) (kind : HandleKind) (reference : ConstantId) :
    Leaves kinds (Pool.addMethodHandle kind reference).run pool
      (Answered fun id later => later.constant id = .ok (.methodHandle kind reference)) := by
  have hget : Leaves kinds (MonadState.get : Edit Pool).run pool
      (Answered fun found later => found = later) :=
    editPure h rfl
  refine editBind hget ?_
  rintro found later hlater - rfl
  have hreference : Leaves kinds (liftM (found.constant reference) : Edit Constant).run found
      (Answered fun constant later => later.constant reference = .ok constant) := by
    cases hconstant : found.constant reference with
    | ok constant => exact editPure hlater hconstant
    | error cause => exact throw hlater
  refine editBind hreference fun constant last hlast _ hconstant => ?_
  split
  · rename_i htag
    refine add hlast fun _ other hother => ?_
    rw [hconstant] at hother
    cases hother
    exact htag
  · exact throw hlast

/-! ### Copying -/

/-- If each replacement leads to the kinds that the handle avoids nothing of, a constant with its
references replaced refers as the constant does. -/
theorem mapReferencesM {replace : ConstantId → Edit ConstantId}
    {leads : List ConstantTag → ConstantId → Prop}
    (hreplace : ∀ {pool : Pool}, pool.TypedFor kinds → ∀ id, Leaves kinds (replace id).run pool
      (Answered fun copy later =>
        ∀ minded tags, (minded → leads tags id) → later.LeadsIf minded tags copy))
    (h : pool.TypedFor kinds) (hrefers : kinds constant.tag → constant.RefersAs leads) :
    Leaves kinds (constant.mapReferencesM replace).run pool
      (Answered fun copied later => copied.tag = constant.tag
        ∧ copied.RefersAs (later.LeadsIf (kinds copied.tag))) := by
  -- The pool grows with each replacement, so what is known of the first is carried over the second.
  cases constant with
  | utf8 _ | utf16 _ | integer _ | float _ | long _ | double _ => exact editPure h ⟨rfl, trivial⟩
  | classInfo name | string name | methodType name | moduleInfo name | packageInfo name =>
    refine editBind (hreplace h _) fun copy later hlater _ hcopy => ?_
    exact editPure hlater ⟨rfl, hcopy _ _ hrefers⟩
  | fieldRef owner member | methodRef owner member | interfaceMethodRef owner member =>
    refine editBind (hreplace h _) fun copy later hlater _ hcopy => ?_
    refine editBind (hreplace hlater _) fun other last hlast hextends hother => ?_
    have howner := (hcopy _ _ fun hkind => (hrefers hkind).1).extends hextends
    exact editPure hlast ⟨rfl, howner, hother _ _ fun hkind => (hrefers hkind).2⟩
  | nameAndType name descriptor =>
    refine editBind (hreplace h _) fun copy later hlater _ hcopy => ?_
    refine editBind (hreplace hlater _) fun other last hlast hextends hother => ?_
    have hname := (hcopy _ _ fun hkind => (hrefers hkind).1).extends hextends
    exact editPure hlast ⟨rfl, hname, hother _ _ fun hkind => (hrefers hkind).2⟩
  | methodHandle kind reference =>
    refine editBind (hreplace h _) fun copy later hlater _ hcopy => ?_
    exact editPure hlater ⟨rfl, hcopy _ _ hrefers⟩
  | dynamic bootstrap member | invokeDynamic bootstrap member =>
    refine editBind (hreplace h _) fun copy later hlater _ hcopy => ?_
    exact editPure hlater ⟨rfl, hcopy _ _ hrefers⟩

/-- A copy is of the kind of the constant that was copied. -/
theorem copyFrom {source : Pool} (hsource : source.SoundFor kinds) (h : pool.TypedFor kinds)
    (depth : Nat) (id : ConstantId) :
    Leaves kinds (Pool.copyFrom source depth id).run pool
      (Answered fun copy later =>
        ∀ minded tags, (minded → source.Keeps tags id) → later.LeadsIf minded tags copy) := by
  induction depth generalizing id pool with
  | zero => exact throw h
  | succ depth ih =>
    have hlookup : Leaves kinds (liftM (source.constant id) : Edit Constant).run pool
        (Answered fun constant _ => source.constant id = .ok constant) := by
      generalize source.constant id = found
      cases found with
      | ok constant => exact editPure h rfl
      | error cause => exact throw h
    refine editBind hlookup fun constant later hlater _ hconstant => ?_
    -- The references are copied first, and their copies are of the kinds of the originals.
    have hmem : constant ∈ source.constants :=
      List.mem_of_getElem? (constant_eq_ok_iff.mp hconstant).2
    refine editBind (mapReferencesM (fun hpool id => ih hpool id) hlater (hsource constant hmem)) ?_
    rintro copied last hlast - ⟨htag, hrefers⟩
    have hkeeps : kinds copied.tag → copied.RefersAs last.Keeps := fun hkind =>
      hrefers.imp fun _ _ _ hleads => (hleads.leads hkind).keeps
    refine (add hlast hkeeps).imp fun result final _ hadded copy hcopy minded tags hminded => ?_
    refine ⟨copied, hadded copy hcopy, fun hyes => ?_⟩
    rw [htag]
    exact hminded hyes constant hconstant

end Leaves

/-! ## Operations that are given handles of the right kinds -/

/-- Whether the handles that an operation is given are of the kinds they have to be, where they are
for constants of some kinds. -/
def Operation.MindsFor (kinds : ConstantTag → Prop) (pool : Pool) : Operation → Prop
  | add constant | addPriority constant => kinds constant.tag → constant.RefersAs pool.Keeps
  | copy source _ => source.SoundFor kinds
  | addFieldRef owner member =>
    kinds .fieldRef → (Constant.fieldRef owner member).RefersAs pool.Keeps
  | addMethodRef owner member =>
    kinds .methodRef → (Constant.methodRef owner member).RefersAs pool.Keeps
  | addInterfaceMethodRef owner member =>
    kinds .interfaceMethodRef → (Constant.interfaceMethodRef owner member).RefersAs pool.Keeps
  | addDynamic bootstrap member =>
    kinds .dynamic → (Constant.dynamic bootstrap member).RefersAs pool.Keeps
  | addInvokeDynamic bootstrap member =>
    kinds .invokeDynamic → (Constant.invokeDynamic bootstrap member).RefersAs pool.Keeps
  | _ => True

/-- A pool that was made empty or read, and then changed by operations that were given handles of
the right kinds, as far as constants of some kinds are concerned. -/
inductive BuiltFor (kinds : ConstantTag → Prop) : Pool → Prop where
  | empty (tag : PoolTag) : BuiltFor kinds (Pool.empty tag)
  | read {tag : PoolTag} {input rest : Bytes} {notices : List Notice} {pool : Pool}
    (h : (Pool.read tag).Reads input pool rest notices) : BuiltFor kinds pool
  | operate {pool : Pool} (operation : Operation) (h : BuiltFor kinds pool)
    (hminds : operation.MindsFor kinds pool) : BuiltFor kinds (operation.after pool)

/-- A pool that was made empty or read, and then changed by operations that were given handles of
the right kinds. -/
def Built (pool : Pool) : Prop := pool.BuiltFor fun _ => True

/-- An operation keeps the pool typed if it minds the kinds of what it is given. -/
theorem TypedFor.after (h : pool.TypedFor kinds) {operation : Operation}
    (hminds : operation.MindsFor kinds pool) : (operation.after pool).TypedFor kinds := by
  have hleaves : ∃ described, Leaves kinds operation.edit.run pool described := by
    cases operation with
    | add constant => exact ⟨_, .add h hminds⟩
    | addPriority constant => exact ⟨_, .addPriority h hminds⟩
    | setPriority id =>
      exact ⟨Answered fun _ _ => True, .editMap (.setPriority h id) fun _ _ _ => trivial⟩
    | copy source id => exact ⟨_, .copyFrom hminds h _ id⟩
    | addUtf8 text =>
      exact ⟨Answered fun _ _ => True, .lift (.map (.addUtf8 h text) fun _ _ _ => trivial)⟩
    | addClass name =>
      exact ⟨Answered fun _ _ => True, .lift (.map (.addClass h name) fun _ _ _ => trivial)⟩
    | addString text => exact ⟨_, .lift (.addText h text fun _ _ hleads => hleads)⟩
    | addInteger value => exact ⟨_, .lift (.intern h trivial)⟩
    | addFloat bits => exact ⟨_, .lift (.intern h trivial)⟩
    | addLong value => exact ⟨_, .lift (.intern h trivial)⟩
    | addDouble bits => exact ⟨_, .lift (.intern h trivial)⟩
    | addNameAndType name descriptor =>
      exact ⟨Answered fun _ _ => True,
        .lift (.map (.addNameAndType h name descriptor) fun _ _ _ => trivial)⟩
    | addFieldRef owner member => exact ⟨_, .add h hminds⟩
    | addMethodRef owner member => exact ⟨_, .add h hminds⟩
    | addInterfaceMethodRef owner member => exact ⟨_, .add h hminds⟩
    | addMethodType descriptor => exact ⟨_, .lift (.addText h descriptor fun _ _ hleads => hleads)⟩
    | addMethodHandle kind reference => exact ⟨_, .addMethodHandle h kind reference⟩
    | addDynamic bootstrap member => exact ⟨_, .add h hminds⟩
    | addInvokeDynamic bootstrap member => exact ⟨_, .add h hminds⟩
    | addModule name => exact ⟨_, .lift (.addText h name fun _ _ hleads => hleads)⟩
    | addPackage name => exact ⟨_, .lift (.addText h name fun _ _ hleads => hleads)⟩
  obtain ⟨described, hdescribed⟩ := hleaves
  exact hdescribed.1

/-- The references in a pool that was built lead to constants of the kinds they have to be, where
kinds were minded. -/
theorem BuiltFor.typedFor (h : pool.BuiltFor kinds) : pool.TypedFor kinds := by
  induction h with
  | empty tag => exact (typed_empty tag).imp fun _ _ => trivial
  | read h =>
    obtain ⟨raws, constants, hresolves, rfl, -, -⟩ := reads_read_iff.mp h
    exact hresolves.typed.imp fun _ _ => trivial
  | operate operation h hminds ih => exact ih.after hminds

/-- A pool that was built may be copied from. -/
theorem BuiltFor.copy {source : Pool} (h : pool.BuiltFor kinds) (hsource : source.BuiltFor kinds)
    (id : ConstantId) : ((Operation.copy source id).after pool).BuiltFor kinds :=
  .operate (.copy source id) h hsource.typedFor.soundFor

/-- What was built by operations that mind kinds was built by operations. -/
theorem BuiltFor.reachable (h : pool.BuiltFor kinds) : pool.Reachable := by
  induction h with
  | empty tag => exact .empty tag
  | read h => exact .read h
  | operate operation h hminds ih => exact .operate operation ih

/-- Where no kinds are minded, nothing is asked of the handles that operations are given. -/
theorem Reachable.builtFor (h : pool.Reachable) : pool.BuiltFor fun _ => False := by
  induction h with
  | empty tag => exact .empty tag
  | read h => exact .read h
  | operate operation h ih =>
    refine .operate operation ih ?_
    cases operation with
    | copy source id => exact fun _ _ hfalse => hfalse.elim
    | add _ | addPriority _ | addFieldRef _ _ | addMethodRef _ _ | addInterfaceMethodRef _ _
    | addDynamic _ _ | addInvokeDynamic _ _ => exact fun hfalse => hfalse.elim
    | _ => trivial

/-- All references in a pool that was built lead to constants of the kinds they have to be. -/
theorem Built.typed (h : pool.Built) : pool.Typed := BuiltFor.typedFor h

theorem Built.reachable (h : pool.Built) : pool.Reachable := BuiltFor.reachable h

end Pool

end ClassFormat
