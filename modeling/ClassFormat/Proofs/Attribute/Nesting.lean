import ClassFormat.Proofs.Attribute.Annotation
import ClassFormat.Proofs.Attribute.LocalVariables
import ClassFormat.Proofs.Attribute.Parts
import Mathlib.Algebra.Order.BigOperators.Group.List
import Mathlib.Algebra.Order.Group.Nat
/-!
# Attributes inside attributes

Only code holds attributes, so what there is at any depth is listed by following code. A property of
attributes that passes from those directly inside one to the one itself holds of all of them.

The number of bytes that an attribute says it takes is the number it is written as. So writing never
finds a length that does not match, and an attribute is written exactly if its payload is, and its
name and its length can be.
-/

namespace ClassFormat

/-- The attributes directly inside a payload. -/
def Payload.attributes : Payload → List Attribute
  | .code body => body.attributes
  | _ => []

mutual

/-- An attribute and all attributes inside it, at any depth. -/
def Attribute.withNested : Attribute → List Attribute
  | ⟨name, payload⟩ => ⟨name, payload⟩ :: payload.nested

/-- All attributes inside a payload, at any depth. -/
def Payload.nested : Payload → List Attribute
  | .code body => body.nested
  | .exceptions _ | .localVariables _ | .lineNumbers _ | .constantValue _ | .sourceFile _
  | .signature _ | .bootstrapMethods _ | .methodParameters _ | .annotations _ _
  | .parameterAnnotations _ _ | .unknown _ => []

/-- All attributes inside code, at any depth. -/
def Code.nested : Code → List Attribute
  | ⟨_, _, _, _, attributes⟩ => attributesWithNested attributes

/-- Some attributes and all attributes inside them, at any depth. -/
def attributesWithNested : List Attribute → List Attribute
  | [] => []
  | attr :: others => attr.withNested ++ attributesWithNested others

end

theorem forall_mem_attributesWithNested_iff {P : Attribute → Prop} {attributes : List Attribute} :
    (∀ part ∈ attributesWithNested attributes, P part)
      ↔ ∀ attr ∈ attributes, ∀ part ∈ attr.withNested, P part := by
  induction attributes with
  | nil => simp [attributesWithNested]
  | cons attr attributes ih =>
    rw [attributesWithNested, List.forall_mem_append, List.forall_mem_cons, ih]

/-- What holds at any depth holds of the attribute itself and at any depth of those inside it. -/
theorem Attribute.forall_mem_withNested_iff {P : Attribute → Prop} {attr : Attribute} :
    (∀ part ∈ attr.withNested, P part) ↔ P attr
      ∧ ∀ nested ∈ attr.payload.attributes, ∀ part ∈ nested.withNested, P part := by
  obtain ⟨name, payload⟩ := attr
  rw [withNested, List.forall_mem_cons]
  cases payload with
  | code body =>
    obtain ⟨maxStack, maxLocals, bytes, handlers, attributes⟩ := body
    rw [Payload.nested, Code.nested, forall_mem_attributesWithNested_iff]
    rfl
  | _ =>
    simp only [Payload.nested, Payload.attributes, List.not_mem_nil, false_imp_iff, implies_true]

/-! ### Induction on the depth -/

mutual

/-- What passes from the attributes directly inside one to the one itself holds of all of them. -/
@[elab_as_elim]
theorem Attribute.nestedInduction {P : Attribute → Prop}
    (step : ∀ attr : Attribute, (∀ nested ∈ attr.payload.attributes, P nested) → P attr) :
    ∀ attr : Attribute, P attr
  | ⟨name, payload⟩ => step ⟨name, payload⟩ (payload.forall_attributes step)

/-- The induction for the attributes of a payload, which only a code has. -/
theorem Payload.forall_attributes {P : Attribute → Prop}
    (step : ∀ attr : Attribute, (∀ nested ∈ attr.payload.attributes, P nested) → P attr) :
    ∀ payload : Payload, ∀ nested ∈ payload.attributes, P nested
  | .code ⟨_, _, _, _, attributes⟩ => forall_of_nestedInduction step attributes
  | .exceptions _ | .localVariables _ | .lineNumbers _ | .constantValue _ | .sourceFile _
  | .signature _ | .bootstrapMethods _ | .methodParameters _ | .annotations _ _
  | .parameterAnnotations _ _ | .unknown _ => fun _ hnested => nomatch hnested

/-- The induction for a list of attributes, in step with the one for a single attribute. -/
theorem forall_of_nestedInduction {P : Attribute → Prop}
    (step : ∀ attr : Attribute, (∀ nested ∈ attr.payload.attributes, P nested) → P attr) :
    ∀ attributes : List Attribute, ∀ nested ∈ attributes, P nested
  | [] => fun _ hnested => nomatch hnested
  | attr :: others =>
    List.forall_mem_cons.mpr ⟨attr.nestedInduction step, forall_of_nestedInduction step others⟩

end

/-! ## Writing -/

section

variable {indices : Indices} {written : Bytes}

/-- The loop over a list of attributes, its accumulator taken away. -/
theorem encodeAttributesFrom_eq (indices : Indices) (written : List Bytes)
    (attributes : List Attribute) : encodeAttributesFrom indices written attributes
      = appendWritten (.ok written.reverse.flatten)
        (encodeAll (Attribute.encode indices) attributes) := by
  induction attributes generalizing written with
  | nil => rw [encodeAttributesFrom, encodeAll_nil, appendWritten_nil]
  | cons attr attributes ih =>
    rw [encodeAttributesFrom, encodeAll_cons]
    exact bind_accumulate ih _

/-- Attributes behind their number are written as any sequence is. -/
theorem encodeAttributes_eq (indices : Indices) : encodeAttributes indices
    = encodeCounted .sequenceLength (Attribute.encode indices) := by
  funext attributes
  rw [encodeAttributes, encodeCounted]
  cases narrow16 .sequenceLength attributes.length with
  | error cause => rfl
  | ok count =>
    simp only [encodeAttributesFrom_eq, List.reverse_nil, List.flatten_nil, nil_appendWritten]
    rfl

/-- The instructions behind their number of bytes. -/
def Code.instructions (bytes : Bytes) : Bytes := BigEndian.encode 4 bytes.length ++ bytes

/-- Code is written part by part, unless its instructions are too many. -/
theorem Code.encode_eq (indices : Indices) (body : Code) : body.encode indices
    = if Code.maxLength < body.bytes.length then .error (.outOfRange .codeLength body.bytes.length)
      else appendWritten (.ok (BigEndian.u16 body.maxStack))
        (appendWritten (.ok (BigEndian.u16 body.maxLocals))
          (appendWritten (.ok (Code.instructions body.bytes))
            (appendWritten
              (encodeCounted .sequenceLength (ExceptionHandler.encode indices) body.handlers)
              (encodeCounted .sequenceLength (Attribute.encode indices) body.attributes)))) := by
  obtain ⟨maxStack, maxLocals, bytes, handlers, attributes⟩ := body
  rw [encode]
  by_cases hlong : Code.maxLength < bytes.length
  · rw [if_pos hlong, if_pos hlong]
    rfl
  rw [if_neg hlong, if_neg hlong, encodeSequence_eq, ← encodeAttributes_eq]
  simp only [← appendWritten_assoc]
  cases encodeCounted .sequenceLength (ExceptionHandler.encode indices) handlers with
  | error cause => rfl
  | ok handlerBytes =>
    rw [encodeAttributes]
    cases narrow16 .sequenceLength attributes.length with
    | error cause => rfl
    | ok count =>
      show (encodeAttributesFrom indices [] attributes >>= _)
        = appendWritten _ (encodeAttributesFrom indices [] attributes >>= _)
      cases encodeAttributesFrom indices [] attributes with
      | error cause => rfl
      | ok rest =>
        show Except.ok _ = Except.ok _
        simp only [Code.instructions, List.append_assoc]

/-! ## Lengths -/

theorem foldl_add_eq {α : Type} (size : α → Nat) (elements : List α) (start : Nat) :
    elements.foldl (fun length element => length + size element) start
      = start + (elements.map size).sum := by
  induction elements generalizing start with
  | nil => rfl
  | cons element elements ih =>
    rw [List.foldl_cons, ih, List.map_cons, List.sum_cons, Nat.add_assoc]

/-- Nested attributes take the sum of what each of them takes. -/
theorem attributesLength_eq (before : Nat) (attributes : List Attribute) :
    attributesLength before attributes = before + (attributes.map Attribute.length).sum := by
  induction attributes generalizing before with
  | nil => rfl
  | cons attr attributes ih =>
    rw [attributesLength, ih, List.map_cons, List.sum_cons, Nat.add_assoc]

/-- What is inside a payload is no longer than the payload. -/
theorem Payload.length_le_of_mem {attr : Attribute} {payload : Payload}
    (h : attr ∈ payload.attributes) : attr.length ≤ payload.length := by
  cases payload with
  | code body =>
    obtain ⟨maxStack, maxLocals, bytes, handlers, attributes⟩ := body
    rw [length, Code.length, attributesLength_eq]
    have hmem : attr.length ∈ attributes.map Attribute.length := List.mem_map_of_mem h
    have hle := List.le_sum_of_mem hmem
    omega
  | _ => cases h

/-- Annotations take the length that was computed for them. -/
theorem length_of_encodeAnnotations {annotations : List Annotation}
    (hwrite : encodeAnnotations indices annotations = .ok written) :
    written.length = annotationsLength annotations := by
  rw [encodeAnnotations, encodeSequence_eq] at hwrite
  rw [annotationsLength, foldl_add_eq]
  exact length_of_encodeCounted hwrite fun annotation _ => annotation.length_of_encode

/-- Elements of one length each behind a number of two bytes. -/
theorem length_of_encodeCounted_const {α : Type} {what : Quantity}
    {encode : α → Except Error Bytes} {elements : List α} {length : Nat}
    (hwrite : encodeCounted what encode elements = .ok written)
    (h : ∀ element bytes, encode element = .ok bytes → bytes.length = length) :
    written.length = 2 + length * elements.length := by
  have hlength := length_of_encodeCounted hwrite fun element _ => h element
  rw [List.map_const', List.sum_replicate_nat, Nat.mul_comm] at hlength
  exact hlength

theorem length_of_encodeShortSequence {α : Type} {what : Quantity}
    {encode : α → Except Error Bytes} {size : α → Nat} {elements : List α}
    (hwrite : encodeShortSequence what encode elements = .ok written)
    (h : ∀ element ∈ elements, ∀ bytes, encode element = .ok bytes →
      bytes.length = size element) : written.length = 1 + (elements.map size).sum := by
  rw [encodeShortSequence_eq] at hwrite
  refine length_of_appendWritten hwrite (fun bytes hbytes => ?_)
    fun bytes hbytes => length_of_encodeAll hbytes h
  obtain ⟨count, -, rfl⟩ := map_eq_ok_iff.mp hbytes
  exact BigEndian.length_u8 count

/-- Every attribute begins with the six bytes of its name and its length. -/
theorem length_of_encodeHeader {name : Utf8Id} {declared : Nat}
    (hwrite : encodeHeader indices name declared = .ok written) : written.length = 6 := by
  simp only [encodeHeader, bind_eq_ok_iff, pure_eq_ok_iff] at hwrite
  obtain ⟨nameBytes, hname, length, -, rfl⟩ := hwrite
  rw [List.length_append, Indices.length_encode hname, BigEndian.length_u32]

/-- Writing an attribute checks its length, so this is a matter of the header only. -/
theorem Attribute.length_of_encode {attr : Attribute}
    (hwrite : attr.encode indices = .ok written) : written.length = attr.length := by
  obtain ⟨name, payload⟩ := attr
  rw [encode, bind_eq_ok_iff] at hwrite
  obtain ⟨data, -, hwrite⟩ := hwrite
  -- The length that was declared is that of the payload, or nothing would be written.
  by_cases hlength : data.length = payload.length
  · rw [if_neg fun hne => hne hlength] at hwrite
    simp only [bind_eq_ok_iff, pure_eq_ok_iff] at hwrite
    obtain ⟨header, hheader, rfl⟩ := hwrite
    rw [List.length_append, length_of_encodeHeader hheader, hlength, length]
  · rw [if_pos hlength] at hwrite
    cases hwrite

/-- A code takes the length that was computed for it, its nested attributes included. -/
theorem Code.length_of_encode {body : Code} (hwrite : body.encode indices = .ok written) :
    written.length = body.length := by
  rw [encode_eq] at hwrite
  split at hwrite
  · cases hwrite
  have hlength : written.length = 2 + (2 + ((4 + body.bytes.length)
      + ((2 + 8 * body.handlers.length) + (2 + (body.attributes.map Attribute.length).sum)))) := by
    refine length_of_appendWritten hwrite (length_of_ok (BigEndian.length_u16 _))
      fun _ hwrite => ?_
    refine length_of_appendWritten hwrite (length_of_ok (BigEndian.length_u16 _))
      fun _ hwrite => ?_
    refine length_of_appendWritten hwrite (length_of_ok ?_) fun _ hwrite => ?_
    · rw [instructions, List.length_append, BigEndian.length_encode]
    refine length_of_appendWritten hwrite (fun _ hwrite => ?_) fun _ hwrite => ?_
    · exact length_of_encodeCounted_const hwrite fun _ _ => ExceptionHandler.length_of_encode
    · exact length_of_encodeCounted hwrite fun _ _ _ => Attribute.length_of_encode
  obtain ⟨maxStack, maxLocals, bytes, handlers, attributes⟩ := body
  rw [length, attributesLength_eq, hlength]
  show 2 + (2 + ((4 + bytes.length)
    + ((2 + 8 * handlers.length) + (2 + (attributes.map Attribute.length).sum)))) = _
  omega

/-- A payload is written as many bytes as it says. -/
theorem Payload.length_of_encode {payload : Payload}
    (hwrite : payload.encode indices = .ok written) : written.length = payload.length := by
  cases payload with
  | code body => exact Code.length_of_encode hwrite
  | exceptions classes =>
    rw [encode, encodeSequence_eq] at hwrite
    exact length_of_encodeCounted_const hwrite fun _ _ => Indices.length_encode
  | localVariables table => exact LocalVariableTable.length_of_encode hwrite
  | lineNumbers lines =>
    rw [encode, encodeSequence_eq] at hwrite
    exact length_of_encodeCounted_const hwrite fun _ _ => LineNumber.length_of_encode
  | constantValue value => exact Indices.length_encode hwrite
  | sourceFile name => exact Indices.length_encode hwrite
  | signature text => exact Indices.length_encode hwrite
  | bootstrapMethods methods =>
    rw [encode, encodeSequence_eq] at hwrite
    rw [length, foldl_add_eq]
    exact length_of_encodeCounted hwrite fun _ _ _ => BootstrapMethod.length_of_encode
  | methodParameters parameters =>
    have hlength := length_of_encodeShortSequence hwrite fun _ _ _ =>
      MethodParameter.length_of_encode
    rw [List.map_const', List.sum_replicate_nat, Nat.mul_comm] at hlength
    exact hlength
  | annotations visibility annotations => exact length_of_encodeAnnotations hwrite
  | parameterAnnotations visibility parameters =>
    rw [length, foldl_add_eq]
    exact length_of_encodeShortSequence hwrite fun _ _ _ => length_of_encodeAnnotations
  | unknown data =>
    cases hwrite
    rfl

/-- The length of a payload always matches, so writing an attribute fails for its parts only. -/
theorem Attribute.encode_eq (indices : Indices) (attr : Attribute) : attr.encode indices
    = attr.payload.encode indices >>= fun data => appendWritten (indices.encode attr.name.id)
        (appendWritten (BigEndian.u32 <$> narrow32 .attributeLength attr.payload.length)
          (.ok data)) := by
  obtain ⟨name, payload⟩ := attr
  rw [encode]
  cases hdata : payload.encode indices with
  | error cause => rfl
  | ok data =>
    have hlength := Payload.length_of_encode hdata
    show (if data.length ≠ payload.length then _ else _) = appendWritten _ _
    rw [if_neg fun hne => hne hlength, encodeHeader, ← appendWritten_assoc]
    cases indices.encode name.id with
    | error cause => rfl
    | ok nameBytes => cases narrow32 .attributeLength payload.length <;> rfl

/-- An attribute is its payload behind its name and the number of bytes of the payload. -/
theorem Attribute.encode_eq_ok_iff {attr : Attribute} : attr.encode indices = .ok written
    ↔ ∃ data name, attr.payload.encode indices = .ok data ∧ indices.encode attr.name.id = .ok name
      ∧ data.length < 2 ^ 32 ∧ written = name ++ (BigEndian.encode 4 data.length ++ data) := by
  rw [encode_eq, bind_eq_ok_iff]
  refine exists_congr fun data => ?_
  simp only [appendWritten_eq_ok_iff, map_eq_ok_iff, narrow32_eq_ok_iff]
  constructor
  · rintro ⟨hdata, name, _, hname, ⟨_, _, ⟨_, ⟨hlt, rfl⟩, rfl⟩, ⟨⟩, rfl⟩, rfl⟩
    rw [← Payload.length_of_encode hdata] at hlt ⊢
    exact ⟨name, hdata, hname, hlt, by rw [BigEndian.encode_four_of_lt hlt]⟩
  · rintro ⟨name, hdata, hname, hlt, rfl⟩
    rw [BigEndian.encode_four_of_lt hlt]
    rw [Payload.length_of_encode hdata] at hlt ⊢
    exact ⟨hdata, name, _, hname, ⟨_, _, ⟨_, ⟨hlt, rfl⟩, rfl⟩, rfl, rfl⟩, rfl⟩

/-- Whatever keeps a payload from being written keeps its attribute from being written. -/
theorem Attribute.encode_eq_error {attr : Attribute} {cause : Error}
    (h : attr.payload.encode indices = .error cause) : attr.encode indices = .error cause := by
  obtain ⟨name, payload⟩ := attr
  rw [encode, h]
  rfl

end

end ClassFormat
