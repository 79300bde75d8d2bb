import ClassFormat.Attribute.Basic
import ClassFormat.Proofs.Pool.Handle
/-!
# Annotations, read and written

`value.FitsIn pool levels` says that a value nests at most so deep and that its constants are of the
kinds its tags ask for. Reading within so many levels gives such values only, and every such value
that was written is read again within so many levels. Both go by induction on the levels, while the
number of bytes goes by recursion on the value.
-/

namespace ClassFormat

/-! ## Writing without an accumulator -/

section

variable (indices : Indices)

/-- The loop over the members of an array, its accumulator taken away. -/
theorem encodeValues_eq (written : List Bytes) (values : List ElementValue) :
    encodeValues indices written values
      = appendWritten (.ok written.reverse.flatten)
        (encodeAll (ElementValue.encode indices) values) := by
  induction values generalizing written with
  | nil => rw [encodeValues, encodeAll_nil, appendWritten_nil]
  | cons value values ih =>
    rw [encodeValues, encodeAll_cons]
    exact bind_accumulate ih _

theorem encodeElements_eq (written : List Bytes) (elements : List AnnotationElement) :
    encodeElements indices written elements
      = appendWritten (.ok written.reverse.flatten)
        (encodeAll (AnnotationElement.encode indices) elements) := by
  induction elements generalizing written with
  | nil => rw [encodeElements, encodeAll_nil, appendWritten_nil]
  | cons element elements ih =>
    rw [encodeElements, encodeAll_cons]
    exact bind_accumulate ih _

/-- What follows the tag of a value. -/
def ElementValue.body : ElementValue → Except Error Bytes
  | .constant _ value => indices.encode value
  | .enumConstant type name => appendWritten (indices.encode type.id) (indices.encode name.id)
  | .classInfo descriptor => indices.encode descriptor.id
  | .nested value => value.encode indices
  | .array values => encodeCounted .sequenceLength (ElementValue.encode indices) values

/-- The tag comes first, and what the tag decides behind it. -/
theorem ElementValue.encode_eq (value : ElementValue) : value.encode indices
    = appendWritten (.ok (BigEndian.u8 value.tag)) (value.body indices) := by
  cases value with
  | constant tag value =>
    rw [encode]
    rfl
  | enumConstant type name =>
    rw [encode, body, ← appendWritten_assoc]
    cases indices.encode type.id <;> rfl
  | classInfo descriptor =>
    rw [encode]
    rfl
  | nested value =>
    rw [encode]
    rfl
  | array values =>
    rw [encode, body, encodeCounted, ← appendWritten_assoc]
    cases narrow16 .sequenceLength values.length with
    | error cause => rfl
    | ok count =>
      simp only [encodeValues_eq, List.reverse_nil, List.flatten_nil, nil_appendWritten]
      rfl

theorem AnnotationElement.encode_eq (element : AnnotationElement) : element.encode indices
    = appendWritten (indices.encode element.name.id) (element.value.encode indices) := by
  cases element
  rw [encode]
  rfl

/-- An annotation is its type and the counted list of its elements. -/
theorem Annotation.encode_eq (whole : Annotation) : whole.encode indices
    = appendWritten (indices.encode whole.type.id)
      (encodeCounted .elementCount (AnnotationElement.encode indices) whole.elements) := by
  obtain ⟨type, elements⟩ := whole
  rw [encode, encodeCounted]
  cases indices.encode type.id with
  | error cause => rfl
  | ok used =>
    cases narrow16 .elementCount elements.length with
    | error cause => rfl
    | ok count =>
      simp only [encodeElements_eq, List.reverse_nil, List.flatten_nil, nil_appendWritten]
      rw [← appendWritten_assoc]
      rfl

/-- A list of annotations is written as every other counted list. -/
theorem encodeAnnotations_eq : encodeAnnotations indices
    = encodeCounted .sequenceLength fun whole => whole.encode indices :=
  encodeSequence_eq

end

/-! ## Lengths -/

theorem valuesLength_eq (before : Nat) (values : List ElementValue) :
    valuesLength before values = before + (values.map ElementValue.length).sum := by
  induction values generalizing before with
  | nil => rfl
  | cons value values ih =>
    rw [valuesLength, ih, List.map_cons, List.sum_cons, Nat.add_assoc]

/-- The elements of an annotation take the sum of what each of them takes. -/
theorem elementsLength_eq (before : Nat) (elements : List AnnotationElement) :
    elementsLength before elements = before + (elements.map AnnotationElement.length).sum := by
  induction elements generalizing before with
  | nil => rfl
  | cons element elements ih =>
    rw [elementsLength, ih, List.map_cons, List.sum_cons, Nat.add_assoc]

variable {indices : Indices}
mutual

/-- A value is written as many bytes as it says. -/
theorem ElementValue.length_of_encode (value : ElementValue) (written : Bytes)
    (hwrite : value.encode indices = .ok written) : written.length = value.length := by
  rw [ElementValue.encode_eq] at hwrite
  have htag : ∀ bytes, Except.ok (ε := Error) (BigEndian.u8 value.tag) = .ok bytes →
      bytes.length = 1 := by
    rintro _ ⟨⟩
    rfl
  match value with
  | .constant _ _ =>
    exact length_of_appendWritten hwrite htag fun _ => Indices.length_encode
  | .enumConstant _ _ =>
    exact length_of_appendWritten hwrite htag fun _ hbody =>
      length_of_appendWritten hbody (fun _ => Indices.length_encode) fun _ => Indices.length_encode
  | .classInfo _ =>
    exact length_of_appendWritten hwrite htag fun _ => Indices.length_encode
  | .nested annotation =>
    exact length_of_appendWritten hwrite htag annotation.length_of_encode
  | .array values =>
    rw [ElementValue.length, valuesLength_eq]
    have hlength := length_of_appendWritten hwrite htag fun _ hbody =>
      length_of_encodeCounted hbody (length_of_values values)
    omega

theorem length_of_values (values : List ElementValue) : ∀ value ∈ values, ∀ written,
    value.encode indices = .ok written → written.length = value.length := by
  match values with
  | [] =>
    intro value hvalue
    cases hvalue
  | value :: values =>
    exact List.forall_mem_cons.mpr ⟨value.length_of_encode, length_of_values values⟩

/-- The length computed ahead is the length of what is written. -/
theorem Annotation.length_of_encode (whole : Annotation) (written : Bytes)
    (hwrite : whole.encode indices = .ok written) : written.length = whole.length := by
  rw [whole.encode_eq] at hwrite
  match whole with
  | ⟨type, elements⟩ =>
    unfold Annotation.length
    rw [elementsLength_eq]
    have hlength : written.length = 2 + (2 + (elements.map AnnotationElement.length).sum) :=
      length_of_appendWritten hwrite (fun _ => Indices.length_encode) fun _ hbody =>
        length_of_encodeCounted hbody (length_of_elements elements)
    omega

theorem length_of_elements (elements : List AnnotationElement) : ∀ element ∈ elements, ∀ written,
    element.encode indices = .ok written → written.length = element.length := by
  match elements with
  | [] =>
    intro element helement
    cases helement
  | element :: elements =>
    exact List.forall_mem_cons.mpr ⟨element.length_of_encode, length_of_elements elements⟩

theorem AnnotationElement.length_of_encode (element : AnnotationElement) (written : Bytes)
    (hwrite : element.encode indices = .ok written) : written.length = element.length := by
  rw [AnnotationElement.encode_eq] at hwrite
  match element with
  | ⟨name, value⟩ =>
    exact length_of_appendWritten hwrite (fun _ => Indices.length_encode) value.length_of_encode

end

/-! ## Kinds and depth -/

/-- Whether an annotation is of a type, and its elements have names and good values. -/
def Annotation.FitsWith (pool : Pool) (good : ElementValue → Prop) (whole : Annotation) : Prop :=
  pool.Keeps [.utf8] whole.type.id
    ∧ ∀ element ∈ whole.elements, pool.Keeps [.utf8] element.name.id ∧ good element.value

/-- Whether a value takes at most so many levels, itself included, and all its constants are of the
kinds they have to be. -/
def ElementValue.FitsIn (pool : Pool) : Nat → ElementValue → Prop
  | 0, _ => False
  | _ + 1, .constant tag value =>
    ∃ expected, ElementValue.constantTag tag = some expected ∧ pool.Keeps [expected] value
  | _ + 1, .enumConstant type name => pool.Keeps [.utf8] type.id ∧ pool.Keeps [.utf8] name.id
  | _ + 1, .classInfo descriptor => pool.Keeps [.utf8] descriptor.id
  | levels + 1, .nested value => value.FitsWith pool (FitsIn pool levels)
  | levels + 1, .array values => ∀ value ∈ values, FitsIn pool levels value

/-- Whether an annotation that is not a value of another one is as reading makes it. -/
def Annotation.Fits (pool : Pool) : Annotation → Prop :=
  Annotation.FitsWith pool (ElementValue.FitsIn pool (maxNesting + 1))

mutual

/-- A value with its handles replaced. -/
def ElementValue.mapHandles (replace : ConstantId → ConstantId) : ElementValue → ElementValue
  | .constant tag value => .constant tag (replace value)
  | .enumConstant type name => .enumConstant ⟨replace type.id⟩ ⟨replace name.id⟩
  | .classInfo descriptor => .classInfo ⟨replace descriptor.id⟩
  | .nested value => .nested (value.mapHandles replace)
  | .array values => .array (mapValueHandles replace values)

def mapValueHandles (replace : ConstantId → ConstantId) : List ElementValue → List ElementValue
  | [] => []
  | value :: others => value.mapHandles replace :: mapValueHandles replace others

/-- An annotation with its handles replaced. -/
def Annotation.mapHandles (replace : ConstantId → ConstantId) : Annotation → Annotation
  | ⟨type, elements⟩ => ⟨⟨replace type.id⟩, mapElementHandles replace elements⟩

def mapElementHandles (replace : ConstantId → ConstantId) :
    List AnnotationElement → List AnnotationElement
  | [] => []
  | element :: others => element.mapHandles replace :: mapElementHandles replace others

def AnnotationElement.mapHandles (replace : ConstantId → ConstantId) :
    AnnotationElement → AnnotationElement
  | ⟨name, value⟩ => ⟨⟨replace name.id⟩, value.mapHandles replace⟩

end

theorem mapValueHandles_eq (replace : ConstantId → ConstantId) (values : List ElementValue) :
    mapValueHandles replace values = values.map (ElementValue.mapHandles replace) := by
  induction values with
  | nil => rfl
  | cons value values ih => rw [mapValueHandles, ih, List.map_cons]

theorem mapElementHandles_eq (replace : ConstantId → ConstantId)
    (elements : List AnnotationElement) :
    mapElementHandles replace elements = elements.map (AnnotationElement.mapHandles replace) := by
  induction elements with
  | nil => rfl
  | cons element elements ih => rw [mapElementHandles, ih, List.map_cons]

/-! ## Reading -/

/-- An element whose value is as the given reader takes it. -/
def AnnotationElement.readWith (pool : Pool) (value : Reader ElementValue) :
    Reader AnnotationElement :=
  (fun (parts : Utf8Id × ElementValue) => ⟨parts.1, parts.2⟩) <$> pool.readUtf8.pair value

/-- The reader of an annotation as a pair of readers, around any reader of values. -/
theorem Annotation.readWith_eq (pool : Pool) (value : Reader ElementValue) :
    readWith pool value = (fun (parts : Utf8Id × List AnnotationElement) => ⟨parts.1, parts.2⟩)
      <$> pool.readUtf8.pair (Reader.sequence (AnnotationElement.readWith pool value)) := by
  simp only [readWith, AnnotationElement.readWith, Reader.pair, map_bind, map_pure]

/-- What follows the tag of a value, given how the values one level below it are read. -/
def ElementValue.readBody (pool : Pool) (part : Reader ElementValue) (tag : UInt8) :
    Reader ElementValue :=
  if tag = enumTag then
    (fun (parts : Utf8Id × Utf8Id) => .enumConstant parts.1 parts.2)
      <$> pool.readUtf8.pair pool.readUtf8
  else if tag = classTag then .classInfo <$> pool.readUtf8
  else if tag = annotationTag then .nested <$> Annotation.readWith pool part
  else if tag = arrayTag then .array <$> Reader.sequence part
  else readConstant pool tag

/-- One more level is one more tag, with the members of an array read a level further in. -/
theorem ElementValue.readWithin_succ (pool : Pool) (levels : Nat) :
    readWithin pool (levels + 1) = Reader.u8 >>= readBody pool (readWithin pool levels) := by
  rw [readWithin]
  congr 1
  funext tag
  simp only [readBody, Reader.pair, map_bind, Functor.map_map, bind_pure_comp]

/-- For a tag that names a kind of constant, an index of exactly that kind is read. -/
theorem ElementValue.readConstant_eq {pool : Pool} {tag : UInt8} {expected : ConstantTag}
    (h : constantTag tag = some expected) : readConstant pool tag = .constant tag <$>
      (Reader.u16 >>= fun index =>
        Reader.ofExcept (pool.idWithTag [expected] .elementValue index)) := by
  rw [readConstant, h, map_bind]

/-- The tag of a constant is not one of the other four. -/
theorem ElementValue.readBody_constant {pool : Pool} {part : Reader ElementValue} {tag : UInt8}
    {expected : ConstantTag} (hexpected : constantTag tag = some expected) :
    readBody pool part tag = readConstant pool tag := by
  -- No constant is told by one of these, so the reader falls through all of them.
  have hne : ∀ other, constantTag other = none → tag ≠ other := by
    rintro other hother rfl
    rw [hother] at hexpected
    cases hexpected
  rw [readBody, if_neg (hne _ rfl), if_neg (hne _ rfl), if_neg (hne _ rfl), if_neg (hne _ rfl)]

/-! ### What is read is exactly what is written -/

section

variable {pool : Pool} {indices : Indices}

section

variable {part : Reader ElementValue} {good : ElementValue → Prop}

/-- What holds of the reader of values holds of the reader of elements around it. -/
theorem AnnotationElement.takes_readWith (h : pool.LaidOut indices)
    (hpart : part.Takes good (ElementValue.encode indices)) :
    (readWith pool part).Takes
      (fun element => pool.Keeps [.utf8] element.name.id ∧ good element.value)
      (encode indices) := by
  rw [funext (encode_eq indices)]
  exact (h.takes_readUtf8.pair hpart).map (fun element : AnnotationElement =>
    (element.name, element.value)) (fun _ => rfl) fun ⟨_, _⟩ => rfl

/-- What holds of the reader of values holds of the reader of annotations around it. -/
theorem Annotation.takes_readWith (h : pool.LaidOut indices)
    (hpart : part.Takes good (ElementValue.encode indices)) :
    (readWith pool part).Takes (FitsWith pool good) (encode indices) := by
  have helements := (AnnotationElement.takes_readWith h hpart).sequence .elementCount
  rw [readWith_eq, funext (encode_eq indices)]
  exact (h.takes_readUtf8.pair helements).map (fun whole : Annotation =>
    (whole.type, whole.elements)) (fun _ => rfl) fun ⟨_, _⟩ => rfl

end

/-- Behind a tag stand exactly the values with that tag. -/
theorem ElementValue.takes_readBody (h : pool.LaidOut indices) {levels : Nat}
    (ih : (readWithin pool levels).Takes (FitsIn pool levels) (encode indices)) (tag : UInt8) :
    (readBody pool (readWithin pool levels) tag).Takes
      (fun value => value.tag = tag ∧ value.FitsIn pool (levels + 1)) (body indices) := by
  have hname := h.takes_readUtf8
  have hnames := hname.pair hname
  have hnested := Annotation.takes_readWith h ih
  have hvalues := ih.sequence .sequenceLength
  have hconstant := fun expected => h.takes_idWithTag [expected] .elementValue
  constructor
  intro input value rest notices
  constructor
  · -- The four tags of their own come first; any other one has to be that of a constant.
    unfold readBody
    split
    · rw [hnames.reads_map]
      rintro ⟨rfl, _, rfl, hgood, hused⟩
      exact ⟨rfl, ⟨Eq.symm ‹_›, hgood⟩, hused⟩
    split
    · rw [hname.reads_map]
      rintro ⟨rfl, _, rfl, hgood, hused⟩
      exact ⟨rfl, ⟨Eq.symm ‹_›, hgood⟩, hused⟩
    split
    · rw [hnested.reads_map]
      rintro ⟨rfl, _, rfl, hgood, hused⟩
      exact ⟨rfl, ⟨Eq.symm ‹_›, hgood⟩, hused⟩
    split
    · rw [hvalues.reads_map]
      rintro ⟨rfl, _, rfl, hgood, hused⟩
      exact ⟨rfl, ⟨Eq.symm ‹_›, hgood⟩, hused⟩
    cases hexpected : constantTag tag with
    | none =>
      rw [readConstant, hexpected]
      exact fun hreads => absurd hreads Reader.reads_fail
    | some expected =>
      rw [readConstant_eq hexpected, (hconstant expected).reads_map]
      rintro ⟨rfl, _, rfl, hkeeps, hused⟩
      exact ⟨rfl, ⟨rfl, expected, hexpected, hkeeps⟩, hused⟩
  · rintro ⟨rfl, ⟨rfl, hfits⟩, hused⟩
    cases value with
    | constant tag value =>
      obtain ⟨expected, hexpected, hkeeps⟩ := hfits
      rw [ElementValue.tag, readBody_constant hexpected, readConstant_eq hexpected]
      exact (hconstant expected).reads_map.mpr ⟨rfl, value, rfl, hkeeps, hused⟩
    | enumConstant type name =>
      exact hnames.reads_map.mpr ⟨rfl, (type, name), rfl, hfits, hused⟩
    | classInfo descriptor => exact hname.reads_map.mpr ⟨rfl, descriptor, rfl, hfits, hused⟩
    | nested value => exact hnested.reads_map.mpr ⟨rfl, value, rfl, hfits, hused⟩
    | array values => exact hvalues.reads_map.mpr ⟨rfl, values, rfl, hfits, hused⟩

/-- The induction on the levels: each level takes exactly what fits in it. -/
theorem ElementValue.takes_readWithin (h : pool.LaidOut indices) (levels : Nat) :
    (readWithin pool levels).Takes (FitsIn pool levels) (encode indices) := by
  induction levels with
  | zero =>
    constructor
    intro input value rest notices
    rw [readWithin]
    exact iff_of_false Reader.reads_fail fun hgood => hgood.2.1
  | succ levels ih =>
    constructor
    intro input value rest notices
    rw [readWithin_succ, Reader.reads_bind, encode_eq]
    constructor
    · rintro ⟨tag, middle, _, _, htag, hbody, rfl⟩
      obtain ⟨rfl, rfl⟩ := Reader.reads_u8.mp htag
      obtain ⟨rfl, ⟨rfl, hfits⟩, used, hused, rfl⟩ := (takes_readBody h ih tag).iff.mp hbody
      exact ⟨rfl, hfits, BigEndian.u8 value.tag ++ used,
        appendWritten_eq_ok_iff.mpr ⟨_, used, rfl, hused, rfl⟩, (List.append_assoc ..).symm⟩
    · rintro ⟨rfl, hfits, written, hwritten, rfl⟩
      obtain ⟨_, used, htag, hused, rfl⟩ := appendWritten_eq_ok_iff.mp hwritten
      cases htag
      refine ⟨value.tag, used ++ rest, [], [], Reader.reads_u8.mpr ⟨?_, rfl⟩,
        (takes_readBody h ih value.tag).iff.mpr ⟨rfl, ⟨rfl, hfits⟩, used, hused, rfl⟩, rfl⟩
      exact List.append_assoc ..

/-- The reader of annotations takes exactly the bytes of those that fit the pool. -/
theorem Annotation.takes_read (h : pool.LaidOut indices) :
    (read pool).Takes (Fits pool) (encode indices) :=
  takes_readWith h (ElementValue.takes_readWithin h (maxNesting + 1))

/-- A list is taken when every annotation of it fits. -/
theorem takes_readAnnotations (h : pool.LaidOut indices) :
    (readAnnotations pool).Takes (fun annotations => ∀ annotation ∈ annotations,
      annotation.Fits pool) (encodeAnnotations indices) := by
  have hread := Annotation.takes_read h
  rw [encodeAnnotations_eq]
  exact hread.sequence .sequenceLength

end

/-! ### What was written is read again -/

section

variable {pool again : Pool} {indices later : Indices}

section

variable {value : Reader ElementValue} {good : ElementValue → Prop}

/-- Read over the pool that was written, an element comes back with its handles exchanged. -/
theorem AnnotationElement.rereads_readWith (h : again.Mirrors indices later pool)
    (hvalue : value.Rereads good (ElementValue.encode indices)
      (ElementValue.mapHandles (again.counterpart indices))) :
    (readWith again value).Rereads
      (fun element => pool.Keeps [.utf8] element.name.id ∧ good element.value)
      (encode indices) (mapHandles (again.counterpart indices)) :=
  (h.rereads_readUtf8.pair hvalue).map _ (fun element => (element.name, element.value))
    (fun _ hgood => hgood) (fun _ => encode_eq ..) fun ⟨_, _⟩ _ => by rw [mapHandles]

/-- The same for an annotation, around a reader of values that has the property. -/
theorem Annotation.rereads_readWith (h : again.Mirrors indices later pool)
    (hvalue : value.Rereads good (ElementValue.encode indices)
      (ElementValue.mapHandles (again.counterpart indices))) :
    (readWith again value).Rereads (FitsWith pool good) (encode indices)
      (mapHandles (again.counterpart indices)) := by
  have helements := (AnnotationElement.rereads_readWith h hvalue).sequence .elementCount
  rw [readWith_eq]
  refine (h.rereads_readUtf8.pair helements).map _ (fun whole => (whole.type, whole.elements))
    (fun _ hgood => hgood) (fun _ => encode_eq ..) fun whole _ => ?_
  obtain ⟨type, elements⟩ := whole
  rw [mapHandles, mapElementHandles_eq]

end

/-- What a value says behind its tag is read again. -/
theorem ElementValue.rereads_readBody (h : again.Mirrors indices later pool) {levels : Nat}
    (ih : (readWithin again levels).Rereads (FitsIn pool levels) (encode indices)
      (mapHandles (again.counterpart indices)))
    {value : ElementValue} {written : Bytes} (hfits : value.FitsIn pool (levels + 1))
    (hwrite : value.body indices = .ok written) :
    ∃ notices, Quiet notices ∧ ∀ rest,
      (readBody again (readWithin again levels) value.tag).Reads (written ++ rest)
      (value.mapHandles (again.counterpart indices)) rest notices := by
  have hutf8 := h.rereads_readUtf8
  cases value with
  | constant tag value =>
    obtain ⟨expected, hexpected, hkeeps⟩ := hfits
    rw [ElementValue.tag, readBody_constant hexpected, readConstant_eq hexpected]
    exact (h.rereads_idWithTag [expected] .elementValue).reads_map hkeeps hwrite rfl
  | enumConstant type name =>
    obtain ⟨notices, hquiet, hreads⟩ := (hutf8.pair hutf8).reads (type, name) hfits hwrite
    exact ⟨notices, hquiet, fun rest => Reader.reads_map.mpr ⟨_, hreads rest, rfl⟩⟩
  | classInfo descriptor => exact hutf8.reads_map hfits hwrite rfl
  | nested value =>
    have hnested := Annotation.rereads_readWith h ih
    exact hnested.reads_map hfits hwrite rfl
  | array values =>
    refine (ih.sequence .sequenceLength).reads_map hfits hwrite ?_
    rw [mapHandles, mapValueHandles_eq]

/-- The induction on the levels, for reading over the pool that was written. -/
theorem ElementValue.rereads_readWithin (h : again.Mirrors indices later pool) (levels : Nat) :
    (readWithin again levels).Rereads (FitsIn pool levels) (encode indices)
      (mapHandles (again.counterpart indices)) := by
  induction levels with
  | zero => exact ⟨fun _ _ hfits => hfits.elim⟩
  | succ levels ih =>
    rw [readWithin_succ]
    -- The tag tells the reader which body to take, and the body is read one level deeper.
    constructor
    intro value written hfits hwrite
    rw [encode_eq, appendWritten_eq_ok_iff] at hwrite
    obtain ⟨_, used, htag, hused, rfl⟩ := hwrite
    cases htag
    obtain ⟨notices, hquiet, hreads⟩ := rereads_readBody h ih hfits hused
    refine ⟨notices, hquiet, fun rest => ?_⟩
    rw [List.append_assoc]
    exact Reader.reads_bind.mpr ⟨value.tag, used ++ rest, [], notices,
      Reader.reads_u8.mpr ⟨rfl, rfl⟩, hreads rest, rfl⟩

/-- A list of annotations comes back as it was, its handles exchanged for their counterparts. -/
theorem rereads_readAnnotations (h : again.Mirrors indices later pool) :
    (readAnnotations again).Rereads
      (fun annotations => ∀ annotation ∈ annotations, annotation.Fits pool)
      (encodeAnnotations indices)
      (List.map fun whole => whole.mapHandles (again.counterpart indices)) := by
  have hvalue := ElementValue.rereads_readWithin h (maxNesting + 1)
  rw [encodeAnnotations_eq]
  have hread := Annotation.rereads_readWith h hvalue
  exact hread.sequence .sequenceLength

end

end ClassFormat
