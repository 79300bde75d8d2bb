import ClassFormat.Proofs.Attribute.Nesting
/-!
# What writing asks for

A part of a class is written unless something in it does not fit the format or is not of the pool.
Each part is mapped to the list of its `Demand`s, such as that a handle is one of the pool or that a
number of elements fits its field. They `Govern` the writer of the part: the writer goes through
them one by one, and there is nothing else for which it could fail. Since a class is written part by
part, this passes from the parts to the whole: to demands of two parts, one behind the other, and to
those of all elements of a sequence, behind the one that their number fits.

So a writer that is governed by demands succeeds exactly if all of them are met (`Decide`).

The demands of an attribute are its own, those of attributes inside it apart. A table of local
variables mentions the constants of an entry once for each of its ranges, so to ask for them, there
have to be ranges; this is so for all tables that are `Made` by finalizing or reading.
-/

namespace ClassFormat

/-- Something that has to hold for a part of a class to be written. -/
inductive Demand where
  /-- The handle is one of the pool. -/
  | handle (id : ConstantId)
  /-- The number of elements fits two bytes. -/
  | count (length : Nat)
  /-- The number of elements fits one byte. -/
  | shortCount (length : Nat)
  /-- The instructions are not too long. -/
  | codeLength (length : Nat)
  /-- The location is an offset that fits two bytes. -/
  | location (place : Location)
  /-- The start of a span fits two bytes, and so does its length less one. -/
  | span (range : Span)
  /-- The length of a payload fits four bytes. -/
  | payload (length : Nat)
deriving DecidableEq, Repr

/-- Whether a demand is met. -/
def Demand.Met (pool : Pool) : Demand → Prop
  | handle id => pool.owns id = true
  | count length => length ≤ 65535
  | shortCount length => length ≤ 255
  | codeLength length => length ≤ 65535
  | location place => ∃ offset ≤ 65535, place = .fixed offset
  | span range => range.start ≤ 65535 ∧ range.stop - range.start - 1 ≤ 65535
  | payload length => length < 2 ^ 32

instance (pool : Pool) : DecidablePred (Demand.Met pool)
  | .handle id => inferInstanceAs (Decidable (pool.owns id = true))
  | .count length => inferInstanceAs (Decidable (length ≤ 65535))
  | .shortCount length => inferInstanceAs (Decidable (length ≤ 255))
  | .codeLength length => inferInstanceAs (Decidable (length ≤ 65535))
  | .location (.fixed offset) =>
    decidable_of_iff (offset ≤ 65535)
      ⟨fun hfits => ⟨offset, hfits, rfl⟩, fun ⟨_, hfits, heq⟩ => Location.fixed.inj heq ▸ hfits⟩
  | .location (.pending _) => isFalse fun ⟨_, _, heq⟩ => nomatch heq
  | .span range =>
    inferInstanceAs (Decidable (range.start ≤ 65535 ∧ range.stop - range.start - 1 ≤ 65535))
  | .payload length => inferInstanceAs (Decidable (length < 2 ^ 32))

/-! ## Demands of local variables -/

/-- What an entry asks for, if it has ranges: its constants, and that its ranges fit. -/
def VariableEntry.demands (entry : VariableEntry Span) : List Demand :=
  .handle entry.name.id :: .handle entry.descriptor.id :: entry.ranges.map .span

namespace LocalVariableTable

/-- What one row asks for: its constants, and that its range fits. -/
def rowDemands (row : VariableEntry Span × Span) : List Demand :=
  [.handle row.1.name.id, .handle row.1.descriptor.id, .span row.2]

/-- What the rows of a table ask for when it is written, with the number of the rows. -/
def demands (table : LocalVariableTable) : List Demand :=
  .count table.rowCount :: table.entries.flatMap VariableEntry.demands

/-- Whether a table is one that finalizing or reading makes. -/
def Made (table : LocalVariableTable) : Prop :=
  (∃ builder : LocalVariableBuilder, builder.finalize.value = table)
    ∨ ∃ pool input rest notices, (LocalVariableTable.read pool).Reads input table rest notices

variable {table : LocalVariableTable}

/-- Finalizing leaves out variables that live nowhere, and a row that is read has a range. -/
theorem Made.ranges_ne (h : table.Made) : ∀ entry ∈ table.entries, entry.ranges ≠ [] := by
  rcases h with ⟨builder, rfl⟩ | ⟨pool, input, rest, notices, hreads⟩
  · intro entry hentry
    obtain ⟨pending, -, hfinal⟩ := List.mem_filterMap.mp hentry
    exact (VariableEntry.finalize?_eq_some_iff.mp hfinal).2.1
  · refine forall_of_reads_read (fun row entry hentry => ?_) (fun row next hrow _ => ?_) hreads
    · rw [row.ranges_of_entry hentry]
      exact List.cons_ne_nil row.span []
    · exact List.append_ne_nil_of_left_ne_nil hrow next.ranges

/-- Rows ask for what their entries do. -/
theorem mem_demands_of_rows {demand : Demand}
    (h : demand ∈ .count table.rowCount :: table.rows.flatMap rowDemands) :
    demand ∈ table.demands := by
  rcases List.mem_cons.mp h with rfl | h
  · exact List.mem_cons_self
  obtain ⟨row, hrow, hdemand⟩ := List.mem_flatMap.mp h
  obtain ⟨entry, hentry, hranges⟩ := List.mem_flatMap.mp hrow
  obtain ⟨span, hspan, rfl⟩ := List.mem_map.mp hranges
  refine List.mem_cons_of_mem _ (List.mem_flatMap.mpr ⟨entry, hentry, ?_⟩)
  simp only [rowDemands, List.mem_cons, List.not_mem_nil, or_false] at hdemand
  rcases hdemand with rfl | rfl | rfl
  · exact List.mem_cons_self
  · exact List.mem_cons_of_mem _ List.mem_cons_self
  · exact List.mem_cons_of_mem _ (List.mem_cons_of_mem _ (List.mem_map_of_mem hspan))

/-- The rows of an entry that has ranges ask for all that the entry does. -/
theorem exists_span_of_mem_demands {entry : VariableEntry Span} (hne : entry.ranges ≠ [])
    {demand : Demand} (h : demand ∈ entry.demands) :
    ∃ span ∈ entry.ranges, demand ∈ rowDemands (entry, span) := by
  obtain ⟨first, hfirst⟩ := List.exists_mem_of_ne_nil _ hne
  rcases List.mem_cons.mp h with rfl | h
  · exact ⟨first, hfirst, List.mem_cons_self⟩
  rcases List.mem_cons.mp h with rfl | h
  · exact ⟨first, hfirst, List.mem_cons_of_mem _ List.mem_cons_self⟩
  obtain ⟨span, hspan, rfl⟩ := List.mem_map.mp h
  exact ⟨span, hspan, by simp [rowDemands]⟩

/-- The rows of a table that is made ask for exactly what the table does. -/
theorem Made.mem_demands_iff (h : table.Made) {demand : Demand} :
    demand ∈ table.demands
      ↔ demand ∈ .count table.rowCount :: table.rows.flatMap rowDemands := by
  refine ⟨fun hdemand => ?_, mem_demands_of_rows⟩
  rcases List.mem_cons.mp hdemand with rfl | hdemand
  · exact List.mem_cons_self
  obtain ⟨entry, hentry, hdemand⟩ := List.mem_flatMap.mp hdemand
  obtain ⟨span, hspan, hdemand⟩ :=
    exists_span_of_mem_demands (h.ranges_ne entry hentry) hdemand
  refine List.mem_cons_of_mem _ (List.mem_flatMap.mpr ⟨(entry, span), ?_, hdemand⟩)
  exact List.mem_flatMap.mpr ⟨entry, hentry, List.mem_map_of_mem hspan⟩

end LocalVariableTable

/-! ## Writing part by part -/

/-- The demands are those that a writer goes through one by one, and it fails for nothing else. Of
some tables it is known that the rows ask for all that the table does. -/
inductive Demand.Govern (indices : Indices) (Tables : LocalVariableTable → Prop) :
    List Demand → Except Error Bytes → Prop where
  | ok (bytes : Bytes) : Govern indices Tables [] (.ok bytes)
  | bind {demands others : List Demand} {first : Except Error Bytes}
    {next : Bytes → Except Error Bytes} : Govern indices Tables demands first →
      (∀ bytes, Govern indices Tables others (next bytes)) →
        Govern indices Tables (demands ++ others) (first >>= next)
  /-- The same is asked for, in whatever order. -/
  | congr {demands others : List Demand} {written : Except Error Bytes}
    (h : ∀ demand, demand ∈ demands ↔ demand ∈ others) :
    Govern indices Tables demands written → Govern indices Tables others written
  | handle (id : ConstantId) : Govern indices Tables [.handle id] (indices.encode id)
  | count (what : Quantity) (length : Nat) :
    Govern indices Tables [.count length] (BigEndian.u16 <$> narrow16 what length)
  | shortCount (what : Quantity) (length : Nat) :
    Govern indices Tables [.shortCount length] (BigEndian.u8 <$> narrow8 what length)
  | codeLength (length : Nat) :
    Govern indices Tables [.codeLength length]
      (if Code.maxLength < length then .error (.outOfRange .codeLength length) else .ok [])
  | location (what : Quantity) (place : Location) :
    Govern indices Tables [.location place] (BigEndian.u16 <$> place.narrow what)
  | span (range : Span) :
    Govern indices Tables [.span range]
      (appendWritten (BigEndian.u16 <$> narrow16 .localVariableStart range.start)
        (BigEndian.u16 <$> narrow16 .localVariableLength (range.stop - range.start - 1)))
  | payload (length : Nat) :
    Govern indices Tables [.payload length] (BigEndian.u32 <$> narrow32 .attributeLength length)
  | table {table : LocalVariableTable} {written : Except Error Bytes} (h : Tables table) :
    Govern indices Tables
      (.count table.rowCount :: table.rows.flatMap LocalVariableTable.rowDemands) written →
      Govern indices Tables table.demands written

open Demand (Govern)

variable {indices : Indices} {Tables : LocalVariableTable → Prop}

namespace Demand.Govern

variable {α : Type} {first second written : Except Error Bytes} {demands others : List Demand}
  {encode : α → Except Error Bytes} {demandsOf : α → List Demand} {elements : List α}

theorem map (h : Govern indices Tables demands written) (f : Bytes → Bytes) :
    Govern indices Tables demands (f <$> written) := by
  rw [← List.append_nil demands, map_eq_pure_bind]
  exact h.bind fun bytes => .ok (f bytes)

/-- Two parts written one after the other ask for what both ask for. -/
theorem append (h : Govern indices Tables demands first)
    (hsecond : Govern indices Tables others second) :
    Govern indices Tables (demands ++ others) (appendWritten first second) := by
  rw [appendWritten]
  simp only [← map_eq_pure_bind]
  exact h.bind fun used => hsecond.map (used ++ ·)

/-- Nothing more is asked for where there is nothing inside. -/
theorem append_nil (h : Govern indices Tables demands written) :
    Govern indices Tables (demands ++ []) written := by
  rw [List.append_nil]
  exact h

/-- A list asks for what its elements ask for. -/
theorem all (h : ∀ element ∈ elements, Govern indices Tables (demandsOf element) (encode element)) :
    Govern indices Tables (elements.flatMap demandsOf) (encodeAll encode elements) := by
  induction elements with
  | nil => exact .ok []
  | cons element elements ih =>
    rw [List.forall_mem_cons] at h
    rw [encodeAll_cons, List.flatMap_cons]
    exact h.1.append (ih h.2)

/-- Elements behind their number ask for what each of them does, and for the number to fit. -/
theorem counted {what : Quantity}
    (h : ∀ element ∈ elements, Govern indices Tables (demandsOf element) (encode element)) :
    Govern indices Tables (.count elements.length :: elements.flatMap demandsOf)
      (encodeCounted what encode elements) :=
  append (.count what elements.length) (all h)

/-- A list with a one-byte count asks for a count of at most 255 as well. -/
theorem shortCounted {what : Quantity}
    (h : ∀ element ∈ elements, Govern indices Tables (demandsOf element) (encode element)) :
    Govern indices Tables (.shortCount elements.length :: elements.flatMap demandsOf)
      (encodeShortSequence what encode elements) := by
  rw [encodeShortSequence_eq]
  exact append (.shortCount what elements.length) (all h)

/-- Handles behind their number. -/
theorem handles {what : Quantity} {idOf : α → ConstantId} :
    Govern indices Tables (.count elements.length :: elements.map (.handle <| idOf ·))
      (encodeCounted what (fun element => indices.encode (idOf element)) elements) := by
  rw [List.map_eq_flatMap]
  exact counted fun element _ => .handle (idOf element)

/-- A class that may be missing is not asked for if it is. -/
theorem optionalClass (id? : Option ClassId) :
    Govern indices Tables (id?.toList.map fun id => .handle id.id)
      (indices.encodeOptionalClass id?) := by
  cases id? with
  | none => exact .ok _
  | some id => exact .handle id.id

end Demand.Govern

/-! ## Rows of tables -/

/-- Three locations, and the handle of the class that is caught if there is one. -/
def ExceptionHandler.demands (handler : ExceptionHandler) : List Demand :=
  [.location handler.start, .location handler.stop, .location handler.target]
    ++ handler.catchType.toList.map fun id => .handle id.id

theorem ExceptionHandler.govern_encode (handler : ExceptionHandler) :
    Govern indices Tables handler.demands (handler.encode indices) := by
  rw [encode_eq]
  refine (Govern.location _ handler.start).append ?_
  refine (Govern.location _ handler.stop).append ?_
  refine (Govern.location _ handler.target).append ?_
  exact .optionalClass handler.catchType

/-- The place where the line begins. -/
def LineNumber.demands (line : LineNumber) : List Demand := [.location line.start]

theorem LineNumber.govern_encode (line : LineNumber) :
    Govern indices Tables line.demands line.encode := by
  rw [encode_eq]
  exact (Govern.location _ line.start).append (.ok _)

/-- The handle of the method, and those of its arguments with their number. -/
def BootstrapMethod.demands (method : BootstrapMethod) : List Demand :=
  .handle method.handle :: .count method.arguments.length :: method.arguments.map .handle

theorem BootstrapMethod.govern_encode (method : BootstrapMethod) :
    Govern indices Tables method.demands (method.encode indices) := by
  rw [encode_eq]
  exact (Govern.handle method.handle).append .handles

/-- The handle of the name, for a parameter that has one. -/
def MethodParameter.demands (parameter : MethodParameter) : List Demand :=
  parameter.name.toList.map fun name => .handle name.id

theorem MethodParameter.govern_encode (parameter : MethodParameter) :
    Govern indices Tables parameter.demands (parameter.encode indices) := by
  rw [encode_eq]
  have hname : Govern indices Tables parameter.demands (encodeName indices parameter.name) := by
    rw [demands]
    cases parameter.name with
    | none => exact .ok _
    | some name => exact .handle name.id
  rw [← List.append_nil parameter.demands]
  exact hname.append (.ok _)

namespace LocalVariableTable

/-- A written row as the parts of it, each with its own demand. -/
theorem encodeRowOf_eq (row : VariableEntry Span × Span) : encodeRowOf indices row
    = appendWritten
      (appendWritten (BigEndian.u16 <$> narrow16 .localVariableStart row.2.start)
        (BigEndian.u16 <$> narrow16 .localVariableLength (row.2.stop - row.2.start - 1)))
      (appendWritten (indices.encode row.1.name.id)
        (appendWritten (indices.encode row.1.descriptor.id)
          (.ok (BigEndian.u16 row.1.slot)))) := by
  rw [encodeRowOf, encodeRow, ← appendWritten_assoc, ← appendWritten_assoc]
  cases narrow16 .localVariableStart row.2.start with
  | error cause => rfl
  | ok start =>
    cases narrow16 .localVariableLength (row.2.stop - row.2.start - 1) with
    | error cause => rfl
    | ok length =>
      cases indices.encode row.1.name.id with
      | error cause => rfl
      | ok name => cases indices.encode row.1.descriptor.id <;> rfl

/-- Whether a row can be written depends on its range and its two handles alone. -/
theorem govern_encodeRowOf (row : VariableEntry Span × Span) :
    Govern indices Tables (rowDemands row) (encodeRowOf indices row) := by
  rw [encodeRowOf_eq]
  refine .congr (fun demand => ?_) ((Govern.span row.2).append
    ((Govern.handle row.1.name.id).append ((Govern.handle row.1.descriptor.id).append (.ok _))))
  simp only [rowDemands, List.mem_append, List.mem_cons, List.not_mem_nil, or_false]
  rw [or_comm, or_assoc]

/-- A table of variables is written exactly if what its rows demand is met. -/
theorem govern_encode {table : LocalVariableTable} (h : Tables table) :
    Govern indices Tables table.demands (table.encode indices) := by
  refine .table h ?_
  rw [encode_eq, ← length_rows]
  exact .counted fun row _ => govern_encodeRowOf row

end LocalVariableTable

/-! ## Annotations -/

mutual

/-- What a value asks for, with all that is inside it. -/
def ElementValue.demands : ElementValue → List Demand
  | .constant _ value => [.handle value]
  | .enumConstant type name => [.handle type.id, .handle name.id]
  | .classInfo descriptor => [.handle descriptor.id]
  | .nested value => value.demands
  | .array values => .count values.length :: valuesDemands values

/-- The demands of the members of an array, in order. -/
def valuesDemands : List ElementValue → List Demand
  | [] => []
  | value :: others => value.demands ++ valuesDemands others

/-- What an annotation asks for, with all that is inside it. -/
def Annotation.demands : Annotation → List Demand
  | ⟨type, elements⟩ => .handle type.id :: .count elements.length :: elementsDemands elements

/-- The demands of the elements of an annotation, in order. -/
def elementsDemands : List AnnotationElement → List Demand
  | [] => []
  | element :: others => element.demands ++ elementsDemands others

/-- The handle of the name, and what the value demands. -/
def AnnotationElement.demands : AnnotationElement → List Demand
  | ⟨name, value⟩ => .handle name.id :: value.demands

end

theorem valuesDemands_eq (values : List ElementValue) :
    valuesDemands values = values.flatMap ElementValue.demands := by
  induction values with
  | nil => rfl
  | cons value values ih => rw [valuesDemands, ih, List.flatMap_cons]

theorem elementsDemands_eq (elements : List AnnotationElement) :
    elementsDemands elements = elements.flatMap AnnotationElement.demands := by
  induction elements with
  | nil => rfl
  | cons element elements ih => rw [elementsDemands, ih, List.flatMap_cons]

mutual

/-- The induction over nested values: each is written exactly if its demands are met. -/
theorem ElementValue.govern_encode (value : ElementValue) :
    Govern indices Tables value.demands (value.encode indices) := by
  rw [ElementValue.encode_eq]
  match value with
  | .constant tag value => exact (Govern.ok _).append (.handle value)
  | .enumConstant type name =>
    exact (Govern.ok _).append ((Govern.handle type.id).append (.handle name.id))
  | .classInfo descriptor => exact (Govern.ok _).append (.handle descriptor.id)
  | .nested value => exact (Govern.ok _).append (value.govern_encode)
  | .array values =>
    rw [ElementValue.demands, valuesDemands_eq]
    exact (Govern.ok _).append (.counted (govern_values values))

theorem govern_values (values : List ElementValue) :
    ∀ value ∈ values, Govern indices Tables value.demands (value.encode indices) := by
  match values with
  | [] =>
    intro value hvalue
    cases hvalue
  | value :: values =>
    exact List.forall_mem_cons.mpr ⟨value.govern_encode, govern_values values⟩

/-- An annotation is written exactly if its type, its count and its elements allow it. -/
theorem Annotation.govern_encode (whole : Annotation) :
    Govern indices Tables whole.demands (whole.encode indices) := by
  rw [whole.encode_eq]
  match whole with
  | ⟨type, elements⟩ =>
    show Govern indices Tables
      (.handle type.id :: .count elements.length :: elementsDemands elements) _
    rw [elementsDemands_eq]
    exact (Govern.handle type.id).append (.counted (govern_elements elements))

theorem govern_elements (elements : List AnnotationElement) :
    ∀ element ∈ elements, Govern indices Tables element.demands (element.encode indices) := by
  match elements with
  | [] =>
    intro element helement
    cases helement
  | element :: elements =>
    exact List.forall_mem_cons.mpr ⟨element.govern_encode, govern_elements elements⟩

theorem AnnotationElement.govern_encode (element : AnnotationElement) :
    Govern indices Tables element.demands (element.encode indices) := by
  rw [AnnotationElement.encode_eq]
  match element with
  | ⟨name, value⟩ => exact (Govern.handle name.id).append (value.govern_encode)

end

/-- Annotations behind their number. -/
def annotationsDemands (annotations : List Annotation) : List Demand :=
  .count annotations.length :: annotations.flatMap Annotation.demands

/-- A list of annotations is governed by its count and by each annotation in it. -/
theorem govern_encodeAnnotations (annotations : List Annotation) :
    Govern indices Tables (annotationsDemands annotations)
      (encodeAnnotations indices annotations) := by
  rw [encodeAnnotations, encodeSequence_eq]
  exact .counted fun annotation _ => annotation.govern_encode

/-! ## Payloads and attributes -/

/-- What a payload asks for, attributes inside it apart. -/
def Payload.demands : Payload → List Demand
  | .code body =>
    .codeLength body.bytes.length :: .count body.handlers.length :: .count body.attributes.length
      :: body.handlers.flatMap ExceptionHandler.demands
  | .exceptions classes => .count classes.length :: classes.map fun id => .handle id.id
  | .localVariables table => table.demands
  | .lineNumbers lines => .count lines.length :: lines.flatMap LineNumber.demands
  | .constantValue value => [.handle value]
  | .sourceFile name => [.handle name.id]
  | .signature text => [.handle text.id]
  | .bootstrapMethods methods => .count methods.length :: methods.flatMap BootstrapMethod.demands
  | .methodParameters parameters =>
    .shortCount parameters.length :: parameters.flatMap MethodParameter.demands
  | .annotations _ group => annotationsDemands group
  | .parameterAnnotations _ groups => .shortCount groups.length :: groups.flatMap annotationsDemands
  | .unknown _ => []

/-- What an attribute asks for, attributes inside it apart. -/
def Attribute.demands (attr : Attribute) : List Demand :=
  .handle attr.name.id :: .payload attr.payload.length :: attr.payload.demands

/-- What an attribute asks for, with all attributes inside it. -/
def Attribute.allDemands (attr : Attribute) : List Demand :=
  attr.withNested.flatMap Attribute.demands

/-- Whether a table of local variables in a payload is one of some tables. -/
def Payload.TableIs (Tables : LocalVariableTable → Prop) (payload : Payload) : Prop :=
  ∀ table, payload = .localVariables table → Tables table

/-- What an attribute asks for is what it asks for by itself, and what those inside it do. -/
theorem Attribute.mem_allDemands_iff {attr : Attribute} {demand : Demand} :
    demand ∈ attr.allDemands ↔ demand ∈ attr.demands
      ∨ ∃ nested ∈ attr.payload.attributes, demand ∈ nested.allDemands := by
  have h := @forall_mem_withNested_iff (demand ∉ ·.demands) attr
  rw [← not_iff_not]
  simp only [allDemands, List.mem_flatMap, not_or, not_exists, not_and]
  exact h

/-- A check in front of a writer is a writer of its own, which writes nothing. -/
theorem ite_error_eq_bind {p : Prop} [Decidable p] {cause : Error} (written : Except Error Bytes) :
    (if p then .error cause else written)
      = (if p then .error cause else .ok ([] : Bytes)) >>= fun _ => written := by
  split <;> rfl

/-- Code asks for its instructions not to be too long, and for what its handlers and its attributes
do. -/
theorem Code.govern_encode {body : Code} (hnested : ∀ attr ∈ body.attributes,
      Govern indices Tables attr.allDemands (attr.encode indices)) :
    Govern indices Tables
      ((Payload.code body).demands ++ body.attributes.flatMap Attribute.allDemands)
      (body.encode indices) := by
  have hhandlers : Govern indices Tables
      (.count body.handlers.length :: body.handlers.flatMap ExceptionHandler.demands)
      (encodeCounted .sequenceLength (ExceptionHandler.encode indices) body.handlers) :=
    .counted fun handler _ => handler.govern_encode
  rw [encode_eq, ite_error_eq_bind]
  refine .congr (fun demand => ?_) ((Govern.codeLength body.bytes.length).bind fun _ =>
    (Govern.ok _).append ((Govern.ok _).append ((Govern.ok _).append
      (hhandlers.append (.counted hnested)))))
  simp only [Payload.demands, List.nil_append, List.mem_append, List.mem_cons, List.not_mem_nil,
    or_false]
  tauto

/-- The demands of a payload are its own and those of the attributes nested in it. -/
theorem Payload.govern_encode {payload : Payload} (htable : payload.TableIs Tables)
    (hnested : ∀ attr ∈ payload.attributes,
      Govern indices Tables attr.allDemands (attr.encode indices)) :
    Govern indices Tables (payload.demands ++ payload.attributes.flatMap Attribute.allDemands)
      (payload.encode indices) := by
  cases payload with
  | code body => exact Code.govern_encode hnested
  | exceptions classes =>
    rw [encode, encodeSequence_eq]
    exact .append_nil .handles
  | localVariables table =>
    exact .append_nil (LocalVariableTable.govern_encode (htable table rfl))
  | lineNumbers lines =>
    rw [encode, encodeSequence_eq]
    exact .append_nil (.counted fun line _ => line.govern_encode)
  | constantValue value => exact .append_nil (.handle value)
  | sourceFile name => exact .append_nil (.handle name.id)
  | signature text => exact .append_nil (.handle text.id)
  | bootstrapMethods methods =>
    rw [encode, encodeSequence_eq]
    exact .append_nil (.counted fun method _ => method.govern_encode)
  | methodParameters parameters =>
    exact .append_nil (.shortCounted fun parameter _ => parameter.govern_encode)
  | annotations visibility group => exact .append_nil (govern_encodeAnnotations group)
  | parameterAnnotations visibility groups =>
    exact .append_nil (.shortCounted fun group _ => govern_encodeAnnotations group)
  | unknown data => exact .append_nil (.ok data)

/-- An attribute asks for what its payload does, for its name, and for the length of the payload to
fit, which is the one that is declared. -/
theorem Attribute.govern_encode {attr : Attribute}
    (htables : ∀ part ∈ attr.withNested, part.payload.TableIs Tables) :
    Govern indices Tables attr.allDemands (attr.encode indices) := by
  induction attr using Attribute.nestedInduction with
  | step attr ih =>
    obtain ⟨hpayload, hinside⟩ := forall_mem_withNested_iff.mp htables
    have hdata := Payload.govern_encode hpayload fun nested hmem => ih nested hmem
      (hinside nested hmem)
    rw [encode_eq]
    refine .congr (fun demand => ?_) (hdata.bind fun data => (Govern.handle attr.name.id).append
      ((Govern.payload attr.payload.length).append (.ok data)))
    rw [mem_allDemands_iff]
    simp only [demands, List.mem_append, List.mem_flatMap, List.mem_cons, List.not_mem_nil,
      or_false]
    grind

/-- Attributes behind their number. -/
theorem govern_encodeAttributes {attributes : List Attribute}
    (htables : ∀ attr ∈ attributes, ∀ part ∈ attr.withNested, part.payload.TableIs Tables) :
    Govern indices Tables (.count attributes.length :: attributes.flatMap Attribute.allDemands)
      (encodeAttributes indices attributes) := by
  rw [encodeAttributes_eq]
  exact .counted fun attr hattr => Attribute.govern_encode (htables attr hattr)

/-! ## Whether something is written -/

/-- Whether something is written exactly if the demands are met. -/
def Demand.Decide (pool : Pool) (demands : List Demand) (written : Except Error Bytes) : Prop :=
  (∃ bytes, written = .ok bytes) ↔ ∀ demand ∈ demands, demand.Met pool

open Demand (Decide)

variable {pool : Pool}

/-- A handle has an index exactly if the pool gave it out. -/
theorem Pool.LaidOut.exists_indexOf_iff (h : pool.LaidOut indices) {id : ConstantId} :
    (∃ index, indices.indexOf id = .ok index) ↔ pool.owns id = true := by
  constructor
  · rintro ⟨index, hindex⟩
    exact exists_constant_iff.mp (h.exists_constant hindex)
  · intro howns
    obtain ⟨index, hindex, -⟩ := h.valid.exists_index h.resolve_eq howns
    exact ⟨index, hindex⟩

/-- A number is narrowed to two bytes exactly if it is at most 65535. -/
theorem exists_narrow16_iff {what : Quantity} {value : Nat} :
    (∃ n, narrow16 what value = .ok n) ↔ value ≤ 65535 := by
  simp only [narrow16_eq_ok_iff, exists_and_left, exists_eq, and_true]
  exact Nat.lt_succ_iff

theorem exists_narrow8_iff {what : Quantity} {value : Nat} :
    (∃ n, narrow8 what value = .ok n) ↔ value ≤ 255 := by
  simp only [narrow8_eq_ok_iff, exists_and_left, exists_eq, and_true]
  exact Nat.lt_succ_iff

theorem exists_narrow32_iff {what : Quantity} {value : Nat} :
    (∃ n, narrow32 what value = .ok n) ↔ value < 2 ^ 32 := by
  simp only [narrow32_eq_ok_iff, exists_and_left, exists_eq, and_true]

/-- A location can be written when it is fixed and its offset takes two bytes. -/
theorem Location.exists_narrow_iff {what : Quantity} {place : Location} :
    (∃ n, place.narrow what = .ok n) ↔ ∃ offset ≤ 65535, place = .fixed offset := by
  cases place with
  | fixed offset => simp [narrow, exists_narrow16_iff]
  | pending label => simp [narrow]

theorem exists_map_iff {β : Type} {number : Except Error β} {render : β → Bytes} :
    (∃ bytes, render <$> number = .ok bytes) ↔ ∃ n, number = .ok n := by
  cases number <;> simp

/-- Two parts can be written together exactly if each of them can. -/
theorem exists_appendWritten_iff {first second : Except Error Bytes} :
    (∃ bytes, appendWritten first second = .ok bytes)
      ↔ (∃ used, first = .ok used) ∧ ∃ more, second = .ok more := by
  constructor
  · rintro ⟨bytes, hbytes⟩
    obtain ⟨used, more, hused, hmore, -⟩ := appendWritten_eq_ok_iff.mp hbytes
    exact ⟨⟨used, hused⟩, more, hmore⟩
  · rintro ⟨⟨used, hused⟩, more, hmore⟩
    exact ⟨used ++ more, appendWritten_eq_ok_iff.mpr ⟨used, more, hused, hmore, rfl⟩⟩

namespace Demand.Decide

variable {demands others : List Demand} {first written : Except Error Bytes}

theorem single {demand : Demand} (h : (∃ bytes, written = .ok bytes) ↔ demand.Met pool) :
    Decide pool [demand] written :=
  h.trans List.forall_mem_singleton.symm

/-- What is written of a number that is not truncated. -/
theorem narrow {β : Type} {number : Except Error β} {render : β → Bytes} {demand : Demand}
    (h : (∃ n, number = .ok n) ↔ demand.Met pool) : Decide pool [demand] (render <$> number) :=
  single (exists_map_iff.trans h)

/-- Two steps of writing, when the bytes of the first decide nothing about the second. -/
theorem bind {next : Bytes → Except Error Bytes} (h : Decide pool demands first)
    (hnext : ∀ bytes, Decide pool others (next bytes)) :
    Decide pool (demands ++ others) (first >>= next) := by
  refine Iff.trans ?_ (List.forall_mem_append.trans (and_congr_left fun _ => h.symm)).symm
  cases first with
  | error cause =>
    refine iff_of_false (fun hwritten => ?_) fun hmet => ?_
    · obtain ⟨bytes, hbytes⟩ := hwritten
      cases hbytes
    · obtain ⟨bytes, hbytes⟩ := hmet.1
      cases hbytes
  | ok bytes => exact (hnext bytes).trans (and_iff_right ⟨bytes, rfl⟩).symm

/-- Only which demands there are counts, not their order or how often one is named. -/
theorem congr (h : Decide pool demands written)
    (hsame : ∀ demand, demand ∈ demands ↔ demand ∈ others) : Decide pool others written :=
  h.trans (forall_congr' fun demand => imp_congr_left (hsame demand))

end Demand.Decide

/-- With the indices of a pool that was laid out, a writer succeeds exactly if the demands that
govern it are met, where all tables are made by finalizing or reading. -/
theorem Demand.Govern.decide (h : pool.LaidOut indices) {demands : List Demand}
    {written : Except Error Bytes}
    (hgovern : Govern indices LocalVariableTable.Made demands written) :
    Decide pool demands written := by
  induction hgovern with
  | ok bytes => exact iff_of_true ⟨bytes, rfl⟩ fun _ hdemand => nomatch hdemand
  | bind _ _ ih ihNext => exact ih.bind ihNext
  | congr hsame _ ih => exact ih.congr hsame
  | handle => exact .narrow h.exists_indexOf_iff
  | count => exact .narrow exists_narrow16_iff
  | shortCount => exact .narrow exists_narrow8_iff
  | codeLength length =>
    refine .single ?_
    by_cases hlong : Code.maxLength < length
    · rw [if_pos hlong]
      exact iff_of_false nofun (Nat.not_le.mpr hlong)
    · rw [if_neg hlong]
      exact iff_of_true ⟨[], rfl⟩ (Nat.not_lt.mp hlong)
  | location => exact .narrow Location.exists_narrow_iff
  | span range =>
    exact .single (exists_appendWritten_iff.trans (and_congr
      (exists_map_iff.trans exists_narrow16_iff) (exists_map_iff.trans exists_narrow16_iff)))
  | payload => exact .narrow exists_narrow32_iff
  | table hmade _ ih => exact ih.congr fun _ => hmade.mem_demands_iff.symm

end ClassFormat
