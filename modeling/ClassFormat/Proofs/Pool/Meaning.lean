import ClassFormat.Proofs.Pool.Growth
import ClassFormat.Proofs.Pool.Rereading
/-!
# What constants mean

A handle says nothing outside its pool. What a constant means is what remains when each reference is
replaced by the meaning of the constant it leads to: a tree of kinds, values, handle kinds and
bootstrap indices, without any handles. `pool.Means id meaning` relates a handle to that tree.

A constant is taken apart into its `blank`, which is everything but the references, and the
references as a list. So all kinds of constants are treated alike. In a pool whose references come
to an end each handle has exactly one meaning, and it keeps that meaning in all later states.
-/

namespace ClassFormat

/-! ## Constants and their references -/

/-- What is done with each element of a list matters for its elements only. -/
theorem mapM_congr_of_mem {m : Type → Type} [Monad m] [LawfulMonad m] {α β : Type} {f g : α → m β}
    {elements : List α} (h : ∀ element ∈ elements, f element = g element) :
    elements.mapM f = elements.mapM g := by
  induction elements with
  | nil => rfl
  | cons element elements ih =>
    rw [List.forall_mem_cons] at h
    rw [List.mapM_cons, List.mapM_cons, h.1, ih h.2]

namespace Constant

variable {constant other : Constant} {ids : List ConstantId}

/-- A handle in place of one that does not matter. -/
def noId : ConstantId := ⟨⟨0⟩, 0⟩

/-- The constant with other references, in the order of the file. -/
def withReferences : Constant → List ConstantId → Constant
  | classInfo _, [name] => classInfo ⟨name⟩
  | string _, [text] => string ⟨text⟩
  | fieldRef _ _, [owner, member] => fieldRef ⟨owner⟩ ⟨member⟩
  | methodRef _ _, [owner, member] => methodRef ⟨owner⟩ ⟨member⟩
  | interfaceMethodRef _ _, [owner, member] => interfaceMethodRef ⟨owner⟩ ⟨member⟩
  | nameAndType _ _, [name, descriptor] => nameAndType ⟨name⟩ ⟨descriptor⟩
  | methodHandle kind _, [reference] => methodHandle kind reference
  | methodType _, [descriptor] => methodType ⟨descriptor⟩
  | dynamic bootstrap _, [member] => dynamic bootstrap ⟨member⟩
  | invokeDynamic bootstrap _, [member] => invokeDynamic bootstrap ⟨member⟩
  | moduleInfo _, [name] => moduleInfo ⟨name⟩
  | packageInfo _, [name] => packageInfo ⟨name⟩
  | constant, _ => constant

/-- All of a constant but its references: its kind, its values, its handle kind and its bootstrap
index. -/
def blank (constant : Constant) : Constant :=
  constant.withReferences (constant.references.map fun _ => noId)

/-- To replace each reference is to replace them as a list. -/
theorem mapReferencesM_eq {m : Type → Type} [Monad m] [LawfulMonad m]
    (replace : ConstantId → m ConstantId) (constant : Constant) :
    constant.mapReferencesM replace
      = constant.withReferences <$> constant.references.mapM replace := by
  cases constant <;> simp [mapReferencesM, references, withReferences]

/-- How references are replaced matters for the references that there are. -/
theorem mapReferencesM_congr {m : Type → Type} [Monad m] [LawfulMonad m]
    {replace instead : ConstantId → m ConstantId}
    (h : ∀ reference ∈ constant.references, replace reference = instead reference) :
    constant.mapReferencesM replace = constant.mapReferencesM instead := by
  rw [mapReferencesM_eq, mapReferencesM_eq, mapM_congr_of_mem h]

/-- As many references as before are all the references there are. -/
theorem references_withReferences (hlength : ids.length = constant.references.length) :
    (constant.withReferences ids).references = ids := by
  cases constant with
  | utf8 _ | utf16 _ | integer _ | float _ | long _ | double _ =>
    exact (List.length_eq_zero_iff.mp hlength).symm
  | fieldRef _ _ | methodRef _ _ | interfaceMethodRef _ _ | nameAndType _ _ =>
    obtain ⟨first, second, rfl⟩ := List.length_eq_two.mp hlength
    rfl
  | _ =>
    obtain ⟨first, rfl⟩ := List.length_eq_one_iff.mp hlength
    rfl

/-- Other references do not change the kind of a constant. -/
theorem tag_withReferences (hlength : ids.length = constant.references.length) :
    (constant.withReferences ids).tag = constant.tag := by
  cases constant with
  | utf8 _ | utf16 _ | integer _ | float _ | long _ | double _ => rfl
  | fieldRef _ _ | methodRef _ _ | interfaceMethodRef _ _ | nameAndType _ _ =>
    obtain ⟨first, second, rfl⟩ := List.length_eq_two.mp hlength
    rfl
  | _ =>
    obtain ⟨first, rfl⟩ := List.length_eq_one_iff.mp hlength
    rfl

/-- Other references leave the rest as it is. -/
theorem blank_withReferences (hlength : ids.length = constant.references.length) :
    (constant.withReferences ids).blank = constant.blank := by
  cases constant with
  | utf8 _ | utf16 _ | integer _ | float _ | long _ | double _ => rfl
  | fieldRef _ _ | methodRef _ _ | interfaceMethodRef _ _ | nameAndType _ _ =>
    obtain ⟨first, second, rfl⟩ := List.length_eq_two.mp hlength
    rfl
  | _ =>
    obtain ⟨first, rfl⟩ := List.length_eq_one_iff.mp hlength
    rfl

theorem tag_blank (constant : Constant) : constant.blank.tag = constant.tag :=
  tag_withReferences (List.length_map _)

/-- A blank constant lacks nothing but its references. -/
theorem withReferences_blank (constant : Constant) :
    constant.blank.withReferences constant.references = constant := by
  cases constant <;> rfl

/-- The blank and the references together are the whole constant, so that meanings lack nothing but
handles. -/
theorem eq_of_blank_eq (hblank : constant.blank = other.blank)
    (hreferences : constant.references = other.references) : constant = other := by
  rw [← withReferences_blank constant, hblank, hreferences, withReferences_blank]

end Constant

/-! ## Meanings -/

/-- What a constant means, all references replaced by what they lead to. -/
inductive Meaning where
  /-- A constant without its references, and the meanings of these. -/
  | of (blank : Constant) (parts : List Meaning)

/-- What holds of a meaning if it holds of its parts holds of all meanings. -/
theorem Meaning.partsInduction {P : Meaning → Prop}
    (h : ∀ blank parts, (∀ part ∈ parts, P part) → P (.of blank parts)) : ∀ meaning, P meaning
  | .of blank parts => h blank parts fun part _ => Meaning.partsInduction h part

/-- What goes along with the same list goes along with each other. -/
theorem forall₂_of_common {α β γ : Type} {R : α → β → Prop} {S : α → γ → Prop} {T : β → γ → Prop}
    {elements : List α} {first : List β} {second : List γ} (hfirst : List.Forall₂ R elements first)
    (hsecond : List.Forall₂ S elements second)
    (h : ∀ element ∈ elements, ∀ a b, R element a → S element b → T a b) :
    List.Forall₂ T first second := by
  induction hfirst generalizing second with
  | nil =>
    cases hsecond
    exact .nil
  | cons hhead _ ih =>
    cases hsecond with
    | cons hother hothers =>
      rw [List.forall_mem_cons] at h
      exact .cons (h.1 _ _ hhead hother) (ih hothers h.2)

/-- What goes along with the elements of a list may be replaced for each of them. -/
theorem forall₂_imp_of_mem {α β : Type} {R S : α → β → Prop} {first : List α} {second : List β}
    (h : List.Forall₂ R first second) (himp : ∀ b ∈ second, ∀ a, R a b → S a b) :
    List.Forall₂ S first second := by
  have hself : List.Forall₂ (· = ·) second second := List.forall₂_refl second
  refine forall₂_of_common h.flip hself ?_
  rintro b hb a _ hab rfl
  exact himp b hb a hab

namespace Pool

variable {pool later : Pool} {id : ConstantId} {meaning : Meaning}

/-- What the constant of a handle means. -/
inductive Means (pool : Pool) : ConstantId → Meaning → Prop where
  | intro {id : ConstantId} {constant : Constant} {parts : List Meaning}
    (hconstant : pool.constant id = .ok constant)
    (hparts : List.Forall₂ (Means pool) constant.references parts) :
    Means pool id (.of constant.blank parts)

/-- What has a meaning is a constant whose references have meanings. -/
theorem Means.exists_parts (h : pool.Means id meaning) :
    ∃ constant parts, pool.constant id = .ok constant ∧ meaning = .of constant.blank parts
      ∧ List.Forall₂ pool.Means constant.references parts := by
  cases h with
  | intro hconstant hparts => exact ⟨_, _, hconstant, rfl, hparts⟩

/-- A handle of the pool means something, since its references come to an end. -/
theorem Grounded.exists_means (h : pool.Grounded) (howns : pool.owns id = true) :
    ∃ meaning, pool.Means id meaning := by
  induction id using h.wellFounded_refersTo.induction with
  | _ id ih =>
    obtain ⟨constant, hconstant⟩ := exists_constant_iff.mpr howns
    have hreferences (reference : ConstantId) (hreference : reference ∈ constant.references) :
        ∃ part, pool.Means reference part :=
      ih reference ⟨constant, hconstant, hreference⟩
        (h.owns_references hconstant reference hreference)
    obtain ⟨parts, hparts⟩ := exists_forall₂ hreferences
    exact ⟨_, .intro hconstant hparts⟩

/-- A handle means one thing only. -/
theorem Grounded.means_unique (h : pool.Grounded) {other : Meaning} (hmeans : pool.Means id meaning)
    (hother : pool.Means id other) : meaning = other := by
  induction id using h.wellFounded_refersTo.induction generalizing meaning other with
  | _ id ih =>
    obtain ⟨constant, parts, hconstant, rfl, hparts⟩ := hmeans.exists_parts
    obtain ⟨found, others, hfound, rfl, hothers⟩ := hother.exists_parts
    rw [hconstant] at hfound
    cases hfound
    have hsame : List.Forall₂ (· = ·) parts others :=
      forall₂_of_common hparts hothers fun reference hreference a b ha hb =>
        ih reference ⟨constant, hconstant, hreference⟩ ha hb
    rw [List.forall₂_eq_eq_eq] at hsame
    rw [hsame]

/-- Later states do not change what a handle means. -/
theorem Means.extends (h : pool.Means id meaning) (hextends : later.Extends pool) :
    later.Means id meaning := by
  induction meaning using Meaning.partsInduction generalizing id with
  | _ blank parts ih =>
    obtain ⟨constant, found, hconstant, hmeaning, hparts⟩ := h.exists_parts
    cases hmeaning
    exact .intro (hextends.constant_eq hconstant)
      (forall₂_imp_of_mem hparts fun part hpart _ hreference => ih part hpart hreference)

end Pool

end ClassFormat
