import ClassFormat.Proofs.Attribute.Demands
/-!
# Why something is not written

Each demand that is not met is refused for a cause that names it: a handle that has no index, a
location that is still open, or a number that does not fit its field. A writer fails for nothing but
one of the demands that govern it (`Demand.Govern.exists_refused`).

A length that does not match what was declared is none of these causes. An attribute says how long
it is before it is written, which is found out by another recursion than the one that writes it, so
writing checks whether the two agree. They always do (`Attribute.length_exact`), and the check fails
neither for an attribute nor for any inside it.
-/

namespace ClassFormat

variable {indices : Indices} {cause : Error}

namespace Demand

/-- The causes for which a demand that is not met is refused. -/
inductive Refuses (indices : Indices) : Demand → Error → Prop where
  | handle {id : ConstantId} (h : ¬ ∃ index, indices.indexOf id = .ok index) :
    Refuses indices (.handle id) (.foreignConstant id)
  | count {what : Quantity} {length : Nat} (h : 65535 < length) :
    Refuses indices (.count length) (.outOfRange what length)
  | shortCount {what : Quantity} {length : Nat} (h : 255 < length) :
    Refuses indices (.shortCount length) (.outOfRange what length)
  | codeLength {length : Nat} (h : 65535 < length) :
    Refuses indices (.codeLength length) (.outOfRange .codeLength length)
  | location {what : Quantity} {offset : Nat} (h : 65535 < offset) :
    Refuses indices (.location (.fixed offset)) (.outOfRange what offset)
  | unresolved {what : Quantity} {label : Label} :
    Refuses indices (.location (.pending label)) (.unresolvedLocation what)
  | spanStart {range : Span} (h : 65535 < range.start) :
    Refuses indices (.span range) (.outOfRange .localVariableStart range.start)
  | spanLength {range : Span} (h : 65535 < range.stop - range.start - 1) :
    Refuses indices (.span range)
      (.outOfRange .localVariableLength (range.stop - range.start - 1))
  | payload {length : Nat} (h : 2 ^ 32 ≤ length) :
    Refuses indices (.payload length) (.outOfRange .attributeLength length)

/-- No demand is refused because of a length that does not match. -/
theorem not_refuses_lengthMismatch {demand : Demand} {name : String} {declared actual : Nat} :
    ¬ demand.Refuses indices (.attributeLengthMismatch name declared actual) := nofun

end Demand

/-! ## Refused numbers -/

theorem narrow8_eq_error {what : Quantity} {value : Nat} (h : narrow8 what value = .error cause) :
    255 < value ∧ cause = .outOfRange what value :=
  (ite_eq_error_iff.mp h).imp_left Nat.not_lt.mp

/-- A two-byte count fails only beyond 65535, and names what was too large. -/
theorem narrow16_eq_error {what : Quantity} {value : Nat} (h : narrow16 what value = .error cause) :
    65535 < value ∧ cause = .outOfRange what value :=
  (ite_eq_error_iff.mp h).imp_left Nat.not_lt.mp

theorem narrow32_eq_error {what : Quantity} {value : Nat} (h : narrow32 what value = .error cause) :
    2 ^ 32 ≤ value ∧ cause = .outOfRange what value :=
  (ite_eq_error_iff.mp h).imp_left Nat.not_lt.mp

/-- The only thing an index can fail on is a handle of another pool. -/
theorem Indices.indexOf_eq_error {id : ConstantId} (h : indices.indexOf id = .error cause) :
    cause = .foreignConstant id := by
  rw [indexOf] at h
  split at h
  · exact (ite_eq_error_iff.mp h).2
  · cases h
    rfl

namespace Demand

open LocalVariableTable (mem_demands_of_rows)

/-- **A writer fails for nothing but one of its demands.** -/
theorem Govern.exists_refused {Tables : LocalVariableTable → Prop} {demands : List Demand}
    {written : Except Error Bytes} (h : Govern indices Tables demands written)
    (hcause : written = .error cause) : ∃ demand ∈ demands, demand.Refuses indices cause := by
  induction h with
  | ok => cases hcause
  | bind _ _ ih ihNext =>
    rcases bind_eq_error_iff.mp hcause with hfirst | ⟨bytes, -, hnext⟩
    · obtain ⟨demand, hmem, hrefuses⟩ := ih hfirst
      exact ⟨demand, List.mem_append_left _ hmem, hrefuses⟩
    · obtain ⟨demand, hmem, hrefuses⟩ := ihNext bytes hnext
      exact ⟨demand, List.mem_append_right _ hmem, hrefuses⟩
  | congr hsame _ ih =>
    obtain ⟨demand, hmem, hrefuses⟩ := ih hcause
    exact ⟨demand, (hsame demand).mp hmem, hrefuses⟩
  | handle id =>
    have hindex := map_eq_error_iff.mp hcause
    obtain rfl := Indices.indexOf_eq_error hindex
    refine ⟨_, List.mem_singleton_self _, .handle ?_⟩
    rintro ⟨index, hok⟩
    rw [hindex] at hok
    cases hok
  | count what length =>
    obtain ⟨hlarge, rfl⟩ := narrow16_eq_error (map_eq_error_iff.mp hcause)
    exact ⟨_, List.mem_singleton_self _, .count hlarge⟩
  | shortCount what length =>
    obtain ⟨hlarge, rfl⟩ := narrow8_eq_error (map_eq_error_iff.mp hcause)
    exact ⟨_, List.mem_singleton_self _, .shortCount hlarge⟩
  | codeLength length =>
    split at hcause
    · rename_i hlong
      cases hcause
      exact ⟨_, List.mem_singleton_self _, .codeLength hlong⟩
    · cases hcause
  | location what place =>
    have hnarrow := map_eq_error_iff.mp hcause
    cases place with
    | fixed offset =>
      obtain ⟨hlarge, rfl⟩ := narrow16_eq_error hnarrow
      exact ⟨_, List.mem_singleton_self _, .location hlarge⟩
    | pending label =>
      cases hnarrow
      exact ⟨_, List.mem_singleton_self _, .unresolved⟩
  | span range =>
    rcases bind_eq_error_iff.mp hcause with hstart | ⟨used, -, hrest⟩
    · obtain ⟨hlarge, rfl⟩ := narrow16_eq_error (map_eq_error_iff.mp hstart)
      exact ⟨_, List.mem_singleton_self _, .spanStart hlarge⟩
    · rcases bind_eq_error_iff.mp hrest with hlength | ⟨more, -, hpure⟩
      · obtain ⟨hlarge, rfl⟩ := narrow16_eq_error (map_eq_error_iff.mp hlength)
        exact ⟨_, List.mem_singleton_self _, .spanLength hlarge⟩
      · cases hpure
  | payload length =>
    obtain ⟨hlarge, rfl⟩ := narrow32_eq_error (map_eq_error_iff.mp hcause)
    exact ⟨_, List.mem_singleton_self _, .payload hlarge⟩
  | table _ _ ih =>
    obtain ⟨demand, hmem, hrefuses⟩ := ih hcause
    exact ⟨demand, mem_demands_of_rows hmem, hrefuses⟩

end Demand

/-! ## Declared lengths -/

/-- Whatever table an attribute has, it is refused for nothing but one of its demands. -/
theorem Attribute.exists_refused {attr : Attribute} (h : attr.encode indices = .error cause) :
    ∃ demand ∈ attr.allDemands, demand.Refuses indices cause := by
  have hgovern : Demand.Govern indices (fun _ => True) attr.allDemands (attr.encode indices) :=
    Attribute.govern_encode fun _ _ _ _ => trivial
  exact hgovern.exists_refused h

/-- **Declared lengths are exact.** With any indices: a payload is written as many bytes as it says.
Writing an attribute, or one inside it at any depth, fails for a demand of its that is not met and
never for a length that does not match. And what an attribute is written as is its payload and six
bytes more. -/
theorem Attribute.length_exact (indices : Indices) :
    (∀ payload written, Payload.encode indices payload = .ok written →
        written.length = payload.length)
      ∧ (∀ attr : Attribute, ∀ part ∈ attr.withNested, ∀ cause,
        part.encode indices = .error cause →
        (∃ demand ∈ part.allDemands, demand.Refuses indices cause)
          ∧ ∀ name declared actual, cause ≠ .attributeLengthMismatch name declared actual)
      ∧ ∀ attr written, Attribute.encode indices attr = .ok written →
        written.length = 6 + attr.payload.length := by
  refine ⟨fun payload written hwrite => Payload.length_of_encode hwrite,
    fun attr part _ cause hcause => ?_, fun attr written hwrite => ?_⟩
  · have hrefused := Attribute.exists_refused hcause
    refine ⟨hrefused, ?_⟩
    rintro name declared actual rfl
    obtain ⟨demand, -, hrefuses⟩ := hrefused
    exact Demand.not_refuses_lengthMismatch hrefuses
  · obtain ⟨name, payload⟩ := attr
    exact Attribute.length_of_encode hwrite

end ClassFormat
