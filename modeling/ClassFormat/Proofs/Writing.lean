import ClassFormat.Error
import Mathlib.Algebra.GroupWithZero.Nat
import Mathlib.Data.List.Forall2
/-!
# What can be written

A writer answers bytes or the cause why there are none. These laws say exactly when an answer put
together from others is a success, so that a success is taken apart into the successes of the parts.
-/

namespace ClassFormat

variable {α β : Type}

theorem pure_eq_ok_iff {value found : α} :
    (pure value : Except Error α) = .ok found ↔ value = found := by
  show Except.ok value = Except.ok found ↔ _
  rw [Except.ok.injEq]

/-- Two steps succeed when the first does and the second does with its result. -/
theorem bind_eq_ok_iff {first : Except Error α} {next : α → Except Error β} {found : β} :
    (first >>= next) = .ok found ↔ ∃ value, first = .ok value ∧ next value = .ok found := by
  cases first with
  | ok value =>
    constructor
    · intro h
      exact ⟨value, rfl, h⟩
    · rintro ⟨other, hother, h⟩
      cases hother
      exact h
  | error cause =>
    constructor
    · intro h
      cases h
    · rintro ⟨other, hother, -⟩
      cases hother

theorem map_eq_ok_iff {f : α → β} {first : Except Error α} {found : β} :
    f <$> first = .ok found ↔ ∃ value, first = .ok value ∧ f value = found := by
  rw [← bind_pure_comp, bind_eq_ok_iff]
  simp only [pure_eq_ok_iff]

theorem toOption_eq_some_iff {first : Except Error α} {value : α} :
    first.toOption = some value ↔ first = .ok value := by
  cases first <;> simp [Except.toOption]

/-- A list is written exactly if each of its elements is. -/
theorem mapM_eq_ok_iff {write : α → Except Error β} {elements : List α} {found : List β} :
    elements.mapM write = .ok found
      ↔ List.Forall₂ (fun element value => write element = .ok value) elements found := by
  induction elements generalizing found with
  | nil => rw [List.mapM_nil, pure_eq_ok_iff, List.forall₂_nil_left_iff, eq_comm]
  | cons element elements ih =>
    simp only [List.mapM_cons, bind_eq_ok_iff, pure_eq_ok_iff, ih]
    constructor
    · rintro ⟨value, hvalue, values, hvalues, rfl⟩
      exact .cons hvalue hvalues
    · rintro (_ | ⟨hvalue, hvalues⟩)
      exact ⟨_, hvalue, _, hvalues, rfl⟩

/-- Two steps fail if the first does, or else the second does. -/
theorem bind_eq_error_iff {first : Except Error α} {next : α → Except Error β} {cause : Error} :
    (first >>= next) = .error cause
      ↔ first = .error cause ∨ ∃ value, first = .ok value ∧ next value = .error cause := by
  cases first with
  | ok value =>
    constructor
    · intro h
      exact .inr ⟨value, rfl, h⟩
    · rintro (herror | ⟨other, hother, h⟩)
      · cases herror
      · cases hother
        exact h
  | error other =>
    constructor
    · intro h
      cases h
      exact .inl rfl
    · rintro (herror | ⟨value, hvalue, -⟩)
      · cases herror
        rfl
      · cases hvalue

/-- A list is refused for the first of its elements that is. -/
theorem mapM_eq_error_iff {write : α → Except Error β} {elements : List α} {cause : Error} :
    elements.mapM write = .error cause ↔ ∃ before element behind,
      elements = before ++ element :: behind ∧ (∀ other ∈ before, ∃ value, write other = .ok value)
        ∧ write element = .error cause := by
  induction elements with
  | nil =>
    constructor
    · intro h
      cases h
    · rintro ⟨before, element, behind, heq, -⟩
      exact absurd heq.symm (by simp)
  | cons first others ih =>
    rw [List.mapM_cons, bind_eq_error_iff]
    constructor
    · rintro (hfirst | ⟨value, hvalue, hothers⟩)
      · exact ⟨[], first, others, rfl, (fun _ hnil => nomatch hnil), hfirst⟩
      · rcases bind_eq_error_iff.mp hothers with hothers | ⟨values, -, hpure⟩
        · obtain ⟨before, element, behind, rfl, hbefore, helement⟩ := ih.mp hothers
          refine ⟨first :: before, element, behind, rfl, ?_, helement⟩
          exact List.forall_mem_cons.mpr ⟨⟨value, hvalue⟩, hbefore⟩
        · cases hpure
    · rintro ⟨before, element, behind, heq, hbefore, helement⟩
      cases before with
      | nil =>
        cases heq
        exact .inl helement
      | cons found before =>
        cases heq
        obtain ⟨value, hvalue⟩ := (List.forall_mem_cons.mp hbefore).1
        have hothers := ih.mpr ⟨before, element, behind, rfl,
          (List.forall_mem_cons.mp hbefore).2, helement⟩
        exact .inr ⟨value, hvalue, bind_eq_error_iff.mpr (.inl hothers)⟩

/-- A guarded answer is a success exactly if the guard holds. -/
theorem ite_eq_ok_iff {p : Prop} [Decidable p] {value found : α} {cause : Error} :
    (if p then .ok value else .error cause : Except Error α) = .ok found ↔ p ∧ found = value := by
  by_cases h : p
  · rw [if_pos h, Except.ok.injEq, eq_comm]
    exact (and_iff_right h).symm
  · rw [if_neg h]
    constructor
    · intro hok
      cases hok
    · rintro ⟨hp, -⟩
      exact absurd hp h

/-- A guarded answer is a failure exactly if the guard does not hold. -/
theorem ite_eq_error_iff {p : Prop} [Decidable p] {value : α} {cause found : Error} :
    (if p then .ok value else .error cause : Except Error α) = .error found
      ↔ ¬ p ∧ found = cause := by
  by_cases h : p <;> simp [h, eq_comm]

theorem map_eq_error_iff {f : α → β} {first : Except Error α} {cause : Error} :
    f <$> first = .error cause ↔ first = .error cause := by
  cases first <;> simp

/-! ## Narrowing -/

theorem narrow8_eq_ok_iff {what : Quantity} {value : Nat} {found : UInt8} :
    narrow8 what value = .ok found ↔ value < 2 ^ 8 ∧ found = UInt8.ofNat value :=
  ite_eq_ok_iff

theorem narrow16_eq_ok_iff {what : Quantity} {value : Nat} {found : UInt16} :
    narrow16 what value = .ok found ↔ value < 2 ^ 16 ∧ found = UInt16.ofNat value :=
  ite_eq_ok_iff

theorem narrow32_eq_ok_iff {what : Quantity} {value : Nat} {found : UInt32} :
    narrow32 what value = .ok found ↔ value < 2 ^ 32 ∧ found = UInt32.ofNat value :=
  ite_eq_ok_iff

end ClassFormat
