import ClassFormat.Proofs.Attribute.Nesting
import ClassFormat.Proofs.Pool.Kinds
/-!
# Attributes, read and written

Each kind of payload is a table or a handle, so what is known of the parts carries over. An
attribute is a frame around its payload: the payload is read by itself and has to be used up.
Payloads nest through code, and both ways of going on from those inside to the one outside are by
induction on a bound for the size.
-/

namespace ClassFormat

namespace AttributeKind

/-- Every kind is found again by its name. -/
theorem ofName?_name (kind : AttributeKind) : ofName? kind.name = some kind := by
  cases kind with
  | annotations visibility => cases visibility <;> decide
  | parameterAnnotations visibility => cases visibility <;> decide
  | _ => decide

end AttributeKind

/-! ## What holds of attributes -/

/-- Whether the handles in a payload, those of attributes inside it apart, are of the kinds that
reading asks for, values nest no deeper than reading goes, and tables of local variables are as
reading or finalizing makes them. -/
def Payload.Sound (pool : Pool) : Payload → Prop
  | .code body => ∀ handler ∈ body.handlers, handler.Sound pool
  | .exceptions classes => ∀ id ∈ classes, pool.Keeps [.classInfo] id.id
  | .localVariables table => ∀ entry ∈ table.entries, entry.Sound pool
  | .lineNumbers _ => True
  | .constantValue value => pool.Keeps constantValueTags value
  | .sourceFile name => pool.Keeps [.utf8] name.id
  | .signature text => pool.Keeps [.utf8] text.id
  | .bootstrapMethods methods => ∀ method ∈ methods, pool.Keeps [.methodHandle] method.handle
  | .methodParameters parameters => ∀ parameter ∈ parameters, parameter.Sound pool
  | .annotations _ group => ∀ annotation ∈ group, annotation.Fits pool
  | .parameterAnnotations _ groups => ∀ group ∈ groups, ∀ annotation ∈ group, annotation.Fits pool
  | .unknown _ => True

/-- An attribute with the name of its kind, or with a name of no kind if its payload is not
understood, and with a sound payload. -/
structure Attribute.Sound (pool : Pool) (attr : Attribute) : Prop where
  name_keeps : pool.Keeps [.utf8] attr.name.id
  exists_name : ∃ text, pool.Spells attr.name text
    ∧ AttributeKind.ofName? text = attr.payload.kind?
  payload : attr.payload.Sound pool

/-- Whether the instructions of code fit the format. -/
def Payload.CodeFits (payload : Payload) : Prop :=
  ∀ body, payload = .code body → body.bytes.length ≤ Code.maxLength

/-! ## Names of attributes -/

namespace Attribute

/-- An attribute gets the name of its kind, and its payload is kept. -/
theorem leaves_ofKind {kinds : ConstantTag → Prop} {pool : Pool} (h : pool.TypedFor kinds)
    (kind : AttributeKind) (payload : Payload) :
    Pool.Leaves kinds (ofKind kind payload) pool fun attr later =>
      attr.payload = payload ∧ later.constant attr.name.id = .ok (.utf8 kind.name) := by
  refine .bind (.addUtf8 h kind.name) fun name later hlater _ hname => ?_
  exact .pure hlater ⟨rfl, hname⟩

/-- An attribute with the name of its kind is sound if its payload is. -/
theorem sound_of_name {pool : Pool} {attr : Attribute} {kind : AttributeKind}
    (hname : pool.constant attr.name.id = .ok (.utf8 kind.name))
    (hkind : attr.payload.kind? = some kind) (hpayload : attr.payload.Sound pool) :
    attr.Sound pool where
  name_keeps := Pool.Leads.keeps ⟨_, hname, List.mem_singleton_self _⟩
  exists_name := ⟨kind.name, .inl (Pool.text_of_constant hname),
    (AttributeKind.ofName?_name kind).trans hkind.symm⟩
  payload := hpayload

end Attribute

/-! ## Replacing handles -/

mutual

/-- An attribute with its handles replaced and the rows of its tables joined. -/
def Attribute.mapJoined (replace : ConstantId → ConstantId) : Attribute → Attribute
  | ⟨name, payload⟩ => ⟨⟨replace name.id⟩, payload.mapJoined replace⟩

/-- The payload with its handles replaced and the rows of one variable joined. -/
def Payload.mapJoined (replace : ConstantId → ConstantId) : Payload → Payload
  | .code body => .code (body.mapJoined replace)
  | .exceptions classes => .exceptions (classes.map fun id => ⟨replace id.id⟩)
  | .localVariables table => .localVariables (table.mapJoined replace)
  | .lineNumbers lines => .lineNumbers lines
  | .constantValue value => .constantValue (replace value)
  | .sourceFile name => .sourceFile ⟨replace name.id⟩
  | .signature text => .signature ⟨replace text.id⟩
  | .bootstrapMethods methods => .bootstrapMethods (methods.map (·.mapHandles replace))
  | .methodParameters parameters => .methodParameters (parameters.map (·.mapHandles replace))
  | .annotations visibility group =>
    .annotations visibility (group.map (·.mapHandles replace))
  | .parameterAnnotations visibility groups =>
    .parameterAnnotations visibility (groups.map fun group => group.map (·.mapHandles replace))
  | .unknown data => .unknown data

/-- The replacement in the handlers of a code and in the attributes inside it. -/
def Code.mapJoined (replace : ConstantId → ConstantId) : Code → Code
  | ⟨maxStack, maxLocals, bytes, handlers, attributes⟩ =>
    ⟨maxStack, maxLocals, bytes, handlers.map (·.mapHandles replace),
      mapJoinedAttributes replace attributes⟩

/-- The replacement in each of a list of attributes. -/
def mapJoinedAttributes (replace : ConstantId → ConstantId) : List Attribute → List Attribute
  | [] => []
  | attr :: others => attr.mapJoined replace :: mapJoinedAttributes replace others

end

section

variable (replace : ConstantId → ConstantId)

theorem mapJoinedAttributes_eq (attributes : List Attribute) :
    mapJoinedAttributes replace attributes = attributes.map (Attribute.mapJoined replace) := by
  induction attributes with
  | nil => rfl
  | cons attr attributes ih => rw [mapJoinedAttributes, ih, List.map_cons]

/-- Of a code the limits and the bytes stay as they are. -/
theorem Code.mapJoined_eq (body : Code) : body.mapJoined replace
    = ⟨body.maxStack, body.maxLocals, body.bytes, body.handlers.map (·.mapHandles replace),
        body.attributes.map (Attribute.mapJoined replace)⟩ := by
  cases body
  rw [mapJoined, mapJoinedAttributes_eq]

/-- Nested attributes stay where they are, each with the replacement made in it. -/
theorem Payload.attributes_mapJoined (payload : Payload) :
    (payload.mapJoined replace).attributes
      = payload.attributes.map (Attribute.mapJoined replace) := by
  cases payload with
  | code body =>
    rw [mapJoined, Code.mapJoined_eq]
    rfl
  | _ =>
    rw [mapJoined]
    rfl

/-- Joining and replacing leave the length of the code alone. -/
theorem Payload.codeFits_mapJoined {payload : Payload} (h : payload.CodeFits) :
    (payload.mapJoined replace).CodeFits := by
  cases payload with
  | code body =>
    -- Code has the same instructions, whatever its handlers and attributes refer to.
    rintro _ heq
    rw [mapJoined, Code.mapJoined_eq] at heq
    cases heq
    exact h body rfl
  | _ =>
    intro _ heq
    rw [mapJoined] at heq
    cases heq

theorem Attribute.payload_mapJoined (attr : Attribute) :
    (attr.mapJoined replace).payload = attr.payload.mapJoined replace := by
  cases attr
  rw [mapJoined]

/-- Replacing handles changes no instructions. -/
theorem Attribute.codeFits_mapJoined {attr : Attribute}
    (h : ∀ part ∈ attr.withNested, part.payload.CodeFits) :
    ∀ part ∈ (attr.mapJoined replace).withNested, part.payload.CodeFits := by
  induction attr using Attribute.nestedInduction with
  | step attr ih =>
    rw [forall_mem_withNested_iff] at h ⊢
    rw [payload_mapJoined, Payload.attributes_mapJoined]
    refine ⟨Payload.codeFits_mapJoined replace h.1,
      List.forall_mem_map.mpr fun nested hnested => ?_⟩
    exact ih nested hnested (h.2 nested hnested)

end

/-! ## Instructions that fit -/

section

variable {indices : Indices} {written : Bytes}

/-- A payload that was written fits the format, and so was what is inside it. -/
theorem Payload.codeFits_of_encode {payload : Payload}
    (hwrite : payload.encode indices = .ok written) : payload.CodeFits
      ∧ ∀ attr ∈ payload.attributes, ∃ bytes, attr.encode indices = .ok bytes := by
  cases payload with
  | code body =>
    rw [encode, Code.encode_eq] at hwrite
    split at hwrite
    · cases hwrite
    rename_i hlong
    simp only [appendWritten_eq_ok_iff] at hwrite
    obtain ⟨-, -, -, ⟨-, -, -, ⟨-, -, -, ⟨-, rest, -, hattributes, -⟩, -⟩, -⟩, -⟩ := hwrite
    refine ⟨?_, exists_of_encodeCounted hattributes⟩
    rintro _ ⟨⟩
    exact Nat.not_lt.mp hlong
  | _ =>
    constructor
    · rintro _ ⟨⟩
    · rintro _ ⟨⟩

/-- Whatever was written fits the format at any depth. -/
theorem Attribute.codeFits_of_encode {attr : Attribute}
    (hwrite : ∃ bytes, attr.encode indices = .ok bytes) :
    ∀ part ∈ attr.withNested, part.payload.CodeFits := by
  induction attr using Attribute.nestedInduction with
  | step attr ih =>
    obtain ⟨bytes, hbytes⟩ := hwrite
    obtain ⟨data, -, hdata, -⟩ := encode_eq_ok_iff.mp hbytes
    obtain ⟨hfits, hnested⟩ := Payload.codeFits_of_encode hdata
    exact forall_mem_withNested_iff.mpr
      ⟨hfits, fun nested hmem => ih nested hmem (hnested nested hmem)⟩

end

/-! ## Code -/

namespace Code

/-- Instructions behind their number of bytes. -/
def readInstructions : Reader Bytes := do
  let length ← Reader.u32
  Reader.block length.toNat

/-- Code below 2^32 bytes is read as the bytes behind its four-byte length. -/
theorem takes_readInstructions :
    readInstructions.Takes (fun bytes => bytes.length < 2 ^ 32)
      (fun bytes => .ok (instructions bytes)) := by
  constructor
  intro input bytes rest notices
  simp only [readInstructions, Reader.reads_bind, Reader.reads_u32, Reader.reads_block,
    instructions]
  constructor
  · rintro ⟨length, _, _, _, ⟨rfl, rfl⟩, ⟨rfl, hlength, rfl⟩, rfl⟩
    have hlt : bytes.length < 2 ^ 32 := by
      rw [hlength]
      exact length.toNat_lt
    refine ⟨rfl, hlt, _, rfl, ?_⟩
    rw [BigEndian.encode_four_of_lt hlt, hlength, UInt32.ofNat_toNat, List.append_assoc]
  · rintro ⟨rfl, hlt, _, heq, rfl⟩
    cases heq
    refine ⟨UInt32.ofNat bytes.length, bytes ++ rest, [], [], ⟨?_, rfl⟩, ⟨rfl, ?_, rfl⟩, rfl⟩
    · rw [BigEndian.encode_four_of_lt hlt, List.append_assoc]
    · exact (UInt32.toNat_ofNat_of_lt' hlt).symm

/-- The parts of code, in the order of the file. -/
abbrev Parts : Type := UInt16 × UInt16 × Bytes × List ExceptionHandler × List Attribute

/-- A code from its parts, in the order they stand in the file. -/
def ofParts (parts : Parts) : Code :=
  ⟨parts.1, parts.2.1, parts.2.2.1, parts.2.2.2.1, parts.2.2.2.2⟩

/-- The parts of a code, in the order they stand in the file. -/
def parts (body : Code) : Parts :=
  (body.maxStack, body.maxLocals, body.bytes, body.handlers, body.attributes)

/-- The reader of a code as nested pairs of readers. -/
theorem read_eq (pool : Pool) (nested : Reader Attribute) : Code.read pool nested
    = ofParts <$> Reader.u16.pair (Reader.u16.pair (readInstructions.pair
        ((Reader.sequence (ExceptionHandler.read pool)).pair (Reader.sequence nested)))) := by
  simp only [Code.read, readInstructions, Reader.pair, ofParts, map_bind, map_pure, bind_assoc,
    pure_bind]

end Code

/-! ## Frames -/

/-- A payload is read by itself, and nothing of it is left. -/
theorem Reader.reads_within {α : Type} {name : String} {data input rest : Bytes}
    {reader : Reader α} {value : α} {notices : List Notice} :
    (reader.within name data).Reads input value rest notices
      ↔ reader.Reads data value [] notices ∧ rest = input := by
  unfold Reader.Reads Reader.within
  split
  · rename_i found left noted heq
    rw [heq]
    by_cases hleft : left = []
    · subst hleft
      simp [eq_comm, and_right_comm]
    · simp [hleft]
  · rename_i cause noted heq
    rw [heq]
    simp

namespace Attribute

/-- What is made of the payload of an attribute with a name. -/
def readBehind (pool : Pool) (nested : Reader Attribute) (name : Utf8Id) (text : String)
    (data : Bytes) : Reader Attribute :=
  match AttributeKind.ofName? text with
  | some kind => do
    return ⟨name, ← (Payload.read pool nested kind).within kind.name data⟩
  | none => do
    Reader.note (.keptOpaque text data.length)
    return ⟨name, .unknown data⟩

/-- An attribute is a name, the length of a payload and the payload. -/
theorem reads_readWith_iff {pool : Pool} {indices : Indices} (h : pool.LaidOut indices)
    {nested : Nat → Reader Attribute} {input rest : Bytes} {attr : Attribute}
    {notices : List Notice} :
    (readWith pool nested).Reads input attr rest notices
      ↔ ∃ name index data text behind, pool.Keeps [.utf8] name.id
        ∧ indices.indexOf name.id = .ok index ∧ data.length < 2 ^ 32 ∧ pool.text name = .ok text
        ∧ input = BigEndian.u16 index ++ (BigEndian.encode 4 data.length ++ data) ++ behind
        ∧ (readBehind pool (nested data.length) name text data).Reads behind attr rest notices := by
  constructor
  · intro hreads
    obtain ⟨name, _, _, _, hname, hlater, rfl⟩ := Reader.reads_bind.mp hreads
    obtain ⟨length, _, _, _, hlength, hblock, rfl⟩ := Reader.reads_bind.mp hlater
    obtain ⟨data, _, _, _, hdata, hlookup, rfl⟩ := Reader.reads_bind.mp hblock
    obtain ⟨text, behind, _, _, hfound, hbody, rfl⟩ := Reader.reads_bind.mp hlookup
    obtain ⟨rfl, hkeeps, used, hused, rfl⟩ := h.takes_readUtf8.iff.mp hname
    obtain ⟨index, hindex, rfl⟩ := Pool.LaidOut.encode_eq_ok_iff.mp hused
    obtain ⟨rfl, rfl⟩ := Reader.reads_u32.mp hlength
    obtain ⟨rfl, hdataLength, rfl⟩ := Reader.reads_block.mp hdata
    obtain ⟨htext, rfl, rfl⟩ := Reader.reads_ofExcept.mp hfound
    have hlt : data.length < 2 ^ 32 := by
      rw [hdataLength]
      exact length.toNat_lt
    refine ⟨name, index, data, text, behind, hkeeps, hindex, hlt, htext, ?_, ?_⟩
    · rw [BigEndian.encode_four_of_lt hlt, hdataLength, UInt32.ofNat_toNat, List.append_assoc,
        List.append_assoc]
    · rw [readBehind, hdataLength]
      exact hbody
  · rintro ⟨name, index, data, text, behind, hkeeps, hindex, hlt, htext, rfl, hbody⟩
    have hlength : (UInt32.ofNat data.length).toNat = data.length := UInt32.toNat_ofNat_of_lt' hlt
    rw [readWith, List.append_assoc, List.append_assoc, BigEndian.encode_four_of_lt hlt]
    refine Reader.reads_bind.mpr ⟨name, _, [], notices, h.takes_readUtf8.iff.mpr
      ⟨rfl, hkeeps, _, Pool.LaidOut.encode_eq_ok_iff.mpr ⟨index, hindex, rfl⟩, rfl⟩, ?_, rfl⟩
    refine Reader.reads_bind.mpr ⟨UInt32.ofNat data.length, data ++ behind, [], notices,
      Reader.reads_u32.mpr ⟨rfl, rfl⟩, ?_, rfl⟩
    refine Reader.reads_bind.mpr
      ⟨data, behind, [], notices, Reader.reads_block.mpr ⟨rfl, hlength.symm, rfl⟩, ?_, rfl⟩
    refine Reader.reads_bind.mpr
      ⟨text, behind, [], notices, Reader.reads_ofExcept.mpr ⟨htext, rfl, rfl⟩, ?_, rfl⟩
    rw [hlength]
    exact hbody

end Attribute

/-! ## What was read is written back -/

section

variable {pool : Pool} {indices : Indices} {good fits : Attribute → Prop}
  {nested : Reader Attribute}

/-- A code is written as it was read if its length fits and its nested attributes do the same. -/
theorem Code.rewrites_read (h : pool.LaidOut indices)
    (hnested : nested.Rewrites good fits (Attribute.encode indices)) :
    (Code.read pool nested).Rewrites
      (fun body => (∀ handler ∈ body.handlers, handler.Sound pool)
        ∧ ∀ attr ∈ body.attributes, good attr)
      (fun body => body.bytes.length ≤ Code.maxLength ∧ ∀ attr ∈ body.attributes, fits attr)
      (Code.encode indices) := by
  -- Only the check of the length sets code apart from the sequence of its parts.
  have hparts := Reader.takes_u16.rewrites.pair (Reader.takes_u16.rewrites.pair
    (takes_readInstructions.rewrites.pair
      (((ExceptionHandler.rewrites_read h).sequence .sequenceLength).pair
        (hnested.sequence .sequenceLength))))
  constructor
  intro input body rest notices hreads
  rw [read_eq] at hreads
  obtain ⟨parts, hinner, rfl⟩ := Reader.reads_map.mp hreads
  obtain ⟨⟨-, -, -, hhandlers, hattributes⟩, used, rfl, hused⟩ := hparts.rewritten hinner
  refine ⟨⟨hhandlers, hattributes⟩, used, rfl, ?_⟩
  rw [encode_eq]
  exact (hused.guard (ofParts parts).bytes.length).congr (by simp [ofParts])

/-- A payload that was read is one of the kind it was read as. -/
theorem Payload.rewrites_read (h : pool.LaidOut indices)
    (hnested : nested.Rewrites good fits (Attribute.encode indices)) (kind : AttributeKind) :
    (Payload.read pool nested kind).Rewrites
      (fun payload => payload.kind? = some kind ∧ payload.Sound pool
        ∧ ∀ attr ∈ payload.attributes, good attr)
      (fun payload => payload.CodeFits ∧ ∀ attr ∈ payload.attributes, fits attr)
      (Payload.encode indices) := by
  have hutf8 := h.takes_readUtf8.rewrites
  have hnone : ∀ attr ∈ ([] : List Attribute), good attr := by simp
  cases kind with
  | code =>
    refine (Code.rewrites_read h hnested).map (fun _ hgood => ⟨rfl, hgood⟩) (fun body => ?_)
      fun _ => rfl
    simp [CodeFits, attributes]
  | exceptions =>
    exact (h.takes_readClass.rewrites.sequence .sequenceLength).map
      (fun _ hgood => ⟨rfl, hgood, hnone⟩) (fun _ => by simp [CodeFits, attributes])
      fun _ => congrFun encodeSequence_eq _
  | localVariables =>
    exact (LocalVariableTable.rewrites_read h).map (fun _ hgood => ⟨rfl, hgood, hnone⟩)
      (fun _ => by simp [CodeFits, attributes]) fun _ => rfl
  | lineNumbers =>
    exact (LineNumber.rewrites_read.sequence .sequenceLength).map
      (fun _ _ => ⟨rfl, trivial, hnone⟩) (fun _ => by simp [CodeFits, attributes])
      fun _ => congrFun encodeSequence_eq _
  | constantValue =>
    exact (rewrites_readConstantValue h).map (fun _ hgood => ⟨rfl, hgood, hnone⟩)
      (fun _ => by simp [CodeFits, attributes]) fun _ => rfl
  | sourceFile =>
    exact hutf8.map (fun _ hgood => ⟨rfl, hgood, hnone⟩) (fun _ => by simp [CodeFits, attributes])
      fun _ => rfl
  | signature =>
    exact hutf8.map (fun _ hgood => ⟨rfl, hgood, hnone⟩) (fun _ => by simp [CodeFits, attributes])
      fun _ => rfl
  | bootstrapMethods =>
    exact ((BootstrapMethod.rewrites_read h).sequence .sequenceLength).map
      (fun _ hgood => ⟨rfl, hgood, hnone⟩) (fun _ => by simp [CodeFits, attributes])
      fun _ => congrFun encodeSequence_eq _
  | methodParameters =>
    exact ((MethodParameter.rewrites_read h).shortSequence .methodParameters).map
      (fun _ hgood => ⟨rfl, hgood, hnone⟩) (fun _ => by simp [CodeFits, attributes]) fun _ => rfl
  | annotations visibility =>
    exact (takes_readAnnotations h).rewrites.map (fun _ hgood => ⟨rfl, hgood, hnone⟩)
      (fun _ => by simp [CodeFits, attributes]) fun _ => rfl
  | parameterAnnotations visibility =>
    exact ((takes_readAnnotations h).rewrites.shortSequence .annotatedParameters).map
      (fun _ hgood => ⟨rfl, hgood, hnone⟩) (fun _ => by simp [CodeFits, attributes]) fun _ => rfl

/-- A payload that is taken whole is written back inside its frame. -/
theorem Attribute.rewritten_frame {attr : Attribute} {index : UInt16} {data : Bytes}
    {payloadFits : Prop} {notices : List Notice}
    (hname : indices.indexOf attr.name.id = .ok index) (hlt : data.length < 2 ^ 32)
    (h : Rewritten payloadFits data notices (attr.payload.encode indices)) :
    Rewritten payloadFits
      (BigEndian.u16 index ++ (BigEndian.encode 4 data.length ++ data)) notices
      (attr.encode indices) where
  of_fits := by
    intro hfits
    obtain ⟨bytes, hbytes, hle, hiff⟩ := h.of_fits hfits
    refine ⟨BigEndian.u16 index ++ (BigEndian.encode 4 bytes.length ++ bytes),
      encode_eq_ok_iff.mpr ⟨bytes, _, hbytes,
        Pool.LaidOut.encode_eq_ok_iff.mpr ⟨index, hname, rfl⟩, Nat.lt_of_le_of_lt hle hlt, rfl⟩,
      ?_, ?_⟩
    · simp only [List.length_append, BigEndian.length_encode]
      omega
    · rw [← hiff]
      constructor
      · intro heq
        have hrest := List.append_cancel_left heq
        exact (List.append_inj hrest (by simp only [BigEndian.length_encode])).2
      · rintro rfl
        rfl
  of_not_fits := by
    intro hnot
    obtain ⟨length, hlong, herror⟩ := h.of_not_fits hnot
    exact ⟨length, hlong, encode_eq_error herror⟩

/-- An attribute is written as it was read if those nested in it are. -/
theorem Attribute.rewrites_readWith (h : pool.LaidOut indices) {nested : Nat → Reader Attribute}
    (hnested : ∀ size, (nested size).Rewrites good fits (Attribute.encode indices)) :
    (Attribute.readWith pool nested).Rewrites
      (fun attr => attr.Sound pool ∧ ∀ part ∈ attr.payload.attributes, good part)
      (fun attr => attr.payload.CodeFits ∧ ∀ part ∈ attr.payload.attributes, fits part)
      (Attribute.encode indices) := by
  constructor
  intro input attr rest notices hreads
  obtain ⟨name, index, data, text, _, hkeeps, hindex, hlt, htext, rfl, hbody⟩ :=
    (reads_readWith_iff h).mp hreads
  unfold readBehind at hbody
  split at hbody
  -- A payload of a known kind is written as its parts, which have to be all of its bytes.
  · rename_i kind hkind
    obtain ⟨payload, _, _, _, hpayload, hattr, rfl⟩ := Reader.reads_bind.mp hbody
    obtain ⟨rfl, rfl, rfl⟩ := Reader.reads_pure.mp hattr
    obtain ⟨hdataReads, rfl⟩ := Reader.reads_within.mp hpayload
    obtain ⟨⟨hkindOf, hsound, hgood⟩, used, hused, hrewritten⟩ :=
      (Payload.rewrites_read h (hnested data.length) kind).rewritten hdataReads
    rw [List.append_nil] at hused
    subst hused
    have hname : AttributeKind.ofName? text = payload.kind? := hkind.trans hkindOf.symm
    refine ⟨⟨⟨hkeeps, ⟨text, .inl htext, hname⟩, hsound⟩, hgood⟩, _, rfl, ?_⟩
    rw [List.append_nil]
    exact rewritten_frame hindex hlt hrewritten
  -- Any other payload is kept as it is, and keeping it does not leave anything out.
  · rename_i hkind
    obtain ⟨_, _, _, _, hnote, hattr, rfl⟩ := Reader.reads_bind.mp hbody
    obtain ⟨rfl, rfl⟩ := Reader.reads_note.mp hnote
    obtain ⟨rfl, rfl, rfl⟩ := Reader.reads_pure.mp hattr
    refine ⟨⟨⟨hkeeps, ⟨text, .inl htext, hkind⟩, trivial⟩, by simp [Payload.attributes]⟩, _, rfl,
      ?_⟩
    have hquiet : Quiet [.keptOpaque text data.length] := by
      refine quiet_singleton fun hdrop => ?_
      cases hdrop
    refine rewritten_frame hindex hlt ((Rewritten.exact rfl hquiet).congr ?_)
    simp [Payload.CodeFits, Payload.attributes]

/-- An attribute that was read within a bound is written back, whatever the bound. -/
theorem Attribute.rewrites_readWithin (h : pool.LaidOut indices) (size : Nat) :
    (Attribute.readWithin pool size).Rewrites
      (fun attr => ∀ part ∈ attr.withNested, part.Sound pool)
      (fun attr => ∀ part ∈ attr.withNested, part.payload.CodeFits)
      (Attribute.encode indices) := by
  induction size with
  | zero => exact ⟨fun hreads => absurd hreads Reader.reads_fail⟩
  | succ size ih =>
    exact (rewrites_readWith h fun _ => ih).congr (fun _ => forall_mem_withNested_iff.mpr)
      (fun _ => forall_mem_withNested_iff) fun _ => rfl

/-- A list of attributes is written as it was read, provided every code inside it fits. -/
theorem rewrites_readAttributes (h : pool.LaidOut indices) :
    (readAttributes pool).Rewrites
      (fun attributes => ∀ attr ∈ attributes, ∀ part ∈ attr.withNested, part.Sound pool)
      (fun attributes => ∀ attr ∈ attributes, ∀ part ∈ attr.withNested, part.payload.CodeFits)
      (encodeAttributes indices) := by
  have hread : (Attribute.read pool).Rewrites
      (fun attr => ∀ part ∈ attr.withNested, part.Sound pool)
      (fun attr => ∀ part ∈ attr.withNested, part.payload.CodeFits) (Attribute.encode indices) :=
    (Attribute.rewrites_readWith h (Attribute.rewrites_readWithin h)).congr
      (fun _ => Attribute.forall_mem_withNested_iff.mpr)
      (fun _ => Attribute.forall_mem_withNested_iff) fun _ => rfl
  rw [encodeAttributes_eq]
  exact hread.sequence .sequenceLength

end

/-! ## What was written is read again -/

section

variable {pool again : Pool} {indices later : Indices} {good : Attribute → Prop}
  {nested : Reader Attribute} {written : Bytes}

/-- A code comes back if the attributes nested in it do. -/
theorem Code.rereads_read (h : again.Mirrors indices later pool)
    (hnested : nested.Rereads good (Attribute.encode indices)
      (Attribute.mapJoined (again.counterpart indices))) :
    (Code.read again nested).Rereads
      (fun body => (∀ handler ∈ body.handlers, handler.Sound pool)
        ∧ ∀ attr ∈ body.attributes, good attr)
      (Code.encode indices) (Code.mapJoined (again.counterpart indices)) := by
  have hparts := Reader.takes_u16.rereads_self.pair (Reader.takes_u16.rereads_self.pair
    (takes_readInstructions.rereads_self.pair
      (((ExceptionHandler.rereads_read h).sequence .sequenceLength).pair
        (hnested.sequence .sequenceLength))))
  constructor
  intro body written hgood hwrite
  rw [encode_eq] at hwrite
  split at hwrite
  · cases hwrite
  rename_i hlong
  have hlt : body.bytes.length < 2 ^ 32 := by
    rw [maxLength] at hlong
    omega
  obtain ⟨notices, hquiet, hreads⟩ :=
    hparts.reads body.parts ⟨trivial, trivial, hlt, hgood.1, hgood.2⟩ hwrite
  refine ⟨notices, hquiet, fun rest => ?_⟩
  rw [read_eq, mapJoined_eq]
  exact Reader.reads_map.mpr ⟨_, hreads rest, rfl⟩

/-- A payload that was written is read as one of its kind. -/
theorem Payload.rereads_read (h : again.Mirrors indices later pool)
    (hnested : nested.Rereads good (Attribute.encode indices)
      (Attribute.mapJoined (again.counterpart indices)))
    {payload : Payload} {kind : AttributeKind} (hkind : payload.kind? = some kind)
    (hsound : payload.Sound pool) (hgood : ∀ attr ∈ payload.attributes, good attr)
    (hwrite : payload.encode indices = .ok written) :
    ∃ notices, Quiet notices ∧ ∀ rest, (Payload.read again nested kind).Reads (written ++ rest)
      (payload.mapJoined (again.counterpart indices)) rest notices := by
  cases payload with
  | code body =>
    cases hkind
    exact (Code.rereads_read h hnested).reads_map ⟨hsound, hgood⟩ hwrite (by rw [mapJoined])
  | exceptions classes =>
    cases hkind
    rw [encode, encodeSequence_eq] at hwrite
    exact (h.rereads_readClass.sequence .sequenceLength).reads_map hsound hwrite (by rw [mapJoined])
  | localVariables table =>
    cases hkind
    exact (LocalVariableTable.rereads_read h).reads_map hsound hwrite (by rw [mapJoined])
  | lineNumbers lines =>
    cases hkind
    rw [encode, encodeSequence_eq] at hwrite
    exact (LineNumber.rereads_read.sequence .sequenceLength).reads_map (fun _ _ => trivial) hwrite
      (by rw [mapJoined, List.map_id'])
  | constantValue value =>
    cases hkind
    exact (rereads_readConstantValue h).reads_map hsound hwrite (by rw [mapJoined])
  | sourceFile name =>
    cases hkind
    exact h.rereads_readUtf8.reads_map hsound hwrite (by rw [mapJoined])
  | signature text =>
    cases hkind
    exact h.rereads_readUtf8.reads_map hsound hwrite (by rw [mapJoined])
  | bootstrapMethods methods =>
    cases hkind
    rw [encode, encodeSequence_eq] at hwrite
    exact ((BootstrapMethod.rereads_read h).sequence .sequenceLength).reads_map hsound hwrite
      (by rw [mapJoined])
  | methodParameters parameters =>
    cases hkind
    exact ((MethodParameter.rereads_read h).shortSequence .methodParameters).reads_map hsound hwrite
      (by rw [mapJoined])
  | annotations visibility group =>
    cases hkind
    exact (rereads_readAnnotations h).reads_map hsound hwrite (by rw [mapJoined])
  | parameterAnnotations visibility groups =>
    cases hkind
    exact ((rereads_readAnnotations h).shortSequence .annotatedParameters).reads_map hsound hwrite
      (by rw [mapJoined])
  | unknown data => cases hkind

/-- Behind its frame, an attribute is read as what it was written as. -/
theorem Attribute.rereads_readBehind (h : again.Mirrors indices later pool)
    (hnested : nested.Rereads good (Attribute.encode indices)
      (Attribute.mapJoined (again.counterpart indices)))
    {name : Utf8Id} {payload : Payload} {text : String} {data : Bytes}
    (hkind : AttributeKind.ofName? text = payload.kind?) (hsound : payload.Sound pool)
    (hgood : ∀ part ∈ payload.attributes, good part) (hdata : payload.encode indices = .ok data) :
    ∃ notices, Quiet notices ∧ ∀ rest,
      (readBehind again nested ⟨again.counterpart indices name.id⟩ text data).Reads rest
        (mapJoined (again.counterpart indices) ⟨name, payload⟩) rest notices := by
  rw [readBehind, hkind, mapJoined]
  cases hkindOf : payload.kind? with
  | some kind =>
    obtain ⟨notices, hquiet, hpayload⟩ :=
      Payload.rereads_read h hnested hkindOf hsound hgood hdata
    have hwhole := hpayload []
    rw [List.append_nil] at hwhole
    exact ⟨notices, hquiet, fun rest => Reader.reads_bind.mpr
      ⟨_, rest, notices, [], Reader.reads_within.mpr ⟨hwhole, rfl⟩,
        Reader.reads_pure.mpr ⟨rfl, rfl, rfl⟩, (List.append_nil notices).symm⟩⟩
  | none =>
    -- Of no kind are the payloads that are kept as bytes, and those are read as the same bytes.
    cases payload with
    | unknown bytes =>
      cases hdata
      have hquiet : Quiet [.keptOpaque text data.length] :=
        quiet_singleton fun hdrop => nomatch hdrop
      refine ⟨_, hquiet, fun rest => Reader.reads_bind.mpr
        ⟨(), rest, _, [], Reader.reads_note.mpr ⟨rfl, rfl⟩, Reader.reads_pure.mpr ⟨?_, rfl, rfl⟩,
          rfl⟩⟩
      rw [Payload.mapJoined]
    | _ => cases hkindOf

/-- An attribute comes back if those nested in it do, at whatever size they are read. -/
theorem Attribute.rereads_readWith (h : again.Mirrors indices later pool)
    {nested : Nat → Reader Attribute} {good : Nat → Attribute → Prop}
    (hnested : ∀ size, (nested size).Rereads (good size) (Attribute.encode indices)
      (Attribute.mapJoined (again.counterpart indices))) :
    (Attribute.readWith again nested).Rereads
      (fun attr => attr.Sound pool
        ∧ ∀ part ∈ attr.payload.attributes, good attr.payload.length part)
      (Attribute.encode indices) (Attribute.mapJoined (again.counterpart indices)) := by
  constructor
  rintro ⟨name, payload⟩ written ⟨⟨hkeeps, ⟨text, htext, hkind⟩, hsound⟩, hgood⟩ hwrite
  obtain ⟨data, nameBytes, hdata, hname, hlt, rfl⟩ := encode_eq_ok_iff.mp hwrite
  obtain ⟨index, hindex, rfl⟩ := Pool.LaidOut.encode_eq_ok_iff.mp hname
  have hlength : payload.length = data.length := (Payload.length_of_encode hdata).symm
  rw [hlength] at hgood
  obtain ⟨notices, hquiet, hbody⟩ :=
    rereads_readBehind h (hnested data.length) hkind hsound hgood hdata
  exact ⟨notices, hquiet, fun rest => (reads_readWith_iff h.after).mpr
    ⟨_, index, data, text, rest, h.keeps_counterpart hname hkeeps,
      h.indexOf_counterpart hindex, hlt, h.text_counterpart hname htext, rfl, hbody rest⟩⟩

/-- An attribute that was written is read again within a bound that it is not longer than. -/
theorem Attribute.rereads_readWithin (h : again.Mirrors indices later pool) (size : Nat) :
    (Attribute.readWithin again size).Rereads
      (fun attr => (∀ part ∈ attr.withNested, part.Sound pool) ∧ attr.length ≤ size)
      (Attribute.encode indices) (Attribute.mapJoined (again.counterpart indices)) := by
  induction size with
  | zero =>
    constructor
    rintro ⟨name, payload⟩ written ⟨-, hlength⟩ -
    rw [length] at hlength
    omega
  | succ size ih =>
    -- What is nested is shorter by the frame at least, so the bound on it can be one less.
    constructor
    rintro ⟨name, payload⟩ written ⟨hsound, hlength⟩ hwrite
    refine (rereads_readWith h fun _ => ih).reads ⟨name, payload⟩ ?_ hwrite
    rw [forall_mem_withNested_iff] at hsound
    refine ⟨hsound.1, fun part hpart => ⟨hsound.2 part hpart, ?_⟩⟩
    have hle : part.length ≤ payload.length := Payload.length_le_of_mem hpart
    rw [length] at hlength
    omega

/-- A list of attributes comes back with its handles exchanged and its rows joined. -/
theorem rereads_readAttributes (h : again.Mirrors indices later pool) :
    (readAttributes again).Rereads
      (fun attributes => ∀ attr ∈ attributes, ∀ part ∈ attr.withNested, part.Sound pool)
      (encodeAttributes indices)
      (List.map (Attribute.mapJoined (again.counterpart indices))) := by
  have hread : (Attribute.read again).Rereads
      (fun attr => ∀ part ∈ attr.withNested, part.Sound pool) (Attribute.encode indices)
      (Attribute.mapJoined (again.counterpart indices)) := by
    constructor
    intro attr written hsound hwrite
    refine (Attribute.rereads_readWith h (Attribute.rereads_readWithin h)).reads attr ?_ hwrite
    rw [Attribute.forall_mem_withNested_iff] at hsound
    exact ⟨hsound.1, fun part hpart =>
      ⟨hsound.2 part hpart, Payload.length_le_of_mem hpart⟩⟩
  rw [encodeAttributes_eq]
  exact hread.sequence .sequenceLength

end

end ClassFormat
