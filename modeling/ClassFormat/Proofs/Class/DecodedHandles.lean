import ClassFormat.Proofs.Class.Parts
import ClassFormat.Proofs.Pool.TypedIds
/-!
# Handles in what is decoded

Every part of a class is decoded with the pool at hand, and a handle that says a kind comes in only
where an index is looked up with that kind checked. So whatever is decoded, with any pool and of any
input, all handles in it that say a kind are on constants of the pool, of the kind they say
(`Pool.Decodes.gives`).

The handles in each part are listed by `typedIds`. `reader.Gives P` says that all values that a
reader takes are so, and passes from the parts of a reader to the whole.
-/

namespace ClassFormat

open Annotation renaming read → readWhole

/-! ## What readers give -/

/-- Whether all values that a reader takes are so. -/
def Reader.Gives {α : Type} (reader : Reader α) (P : α → Prop) : Prop :=
  ∀ ⦃input value rest notices⦄, reader.Reads input value rest notices → P value

namespace Reader.Gives

variable {α β : Type} {reader : Reader α} {P : α → Prop} {Q : β → Prop}

theorem any (reader : Reader α) : reader.Gives fun _ => True := fun _ _ _ _ _ => trivial

theorem pure {value : α} (h : P value) : (Pure.pure value : Reader α).Gives P := by
  intro input found rest notices hreads
  obtain ⟨rfl, -, -⟩ := reads_pure.mp hreads
  exact h

theorem fail (cause : Error) : (Reader.fail cause : Reader α).Gives P := by
  intro input found rest notices hreads
  exact absurd hreads reads_fail

theorem ofExcept {result : Except Error α} (h : ∀ value, result = .ok value → P value) :
    (Reader.ofExcept result).Gives P := by
  intro input found rest notices hreads
  exact h found (reads_ofExcept.mp hreads).1

/-- What is known of the first answer may be used for the second reader. -/
theorem bind {next : α → Reader β} (h : reader.Gives P)
    (hnext : ∀ value, P value → (next value).Gives Q) : (reader >>= next).Gives Q := by
  intro input found rest notices hreads
  obtain ⟨first, middle, before, behind, hfirst, hlast, -⟩ := reads_bind.mp hreads
  exact hnext first (h hfirst) hlast

theorem map {f : α → β} (h : reader.Gives P) (hf : ∀ value, P value → Q (f value)) :
    (f <$> reader).Gives Q := by
  intro input found rest notices hreads
  obtain ⟨value, hvalue, rfl⟩ := reads_map.mp hreads
  exact hf value (h hvalue)

/-- A value that nothing has to be known of stands in front. -/
theorem behind {next : α → Reader β} (hnext : ∀ value, (next value).Gives Q) :
    (reader >>= next).Gives Q :=
  bind (any reader) fun value _ => hnext value

/-- All elements of a sequence are of the kind that the reader gives. -/
theorem sequence (h : reader.Gives P) :
    (Reader.sequence reader).Gives fun found => ∀ value ∈ found, P value :=
  behind fun _ _ _ _ _ hreads => forall_of_reads_many (fun hvalue => h hvalue) hreads

theorem shortSequence (h : reader.Gives P) :
    (Reader.shortSequence reader).Gives fun found => ∀ value ∈ found, P value :=
  behind fun _ _ _ _ _ hreads => forall_of_reads_many (fun hvalue => h hvalue) hreads

/-- What is read within a payload is what the reader gives. -/
theorem within {name : String} {data : Bytes} (h : reader.Gives P) :
    (reader.within name data).Gives P := by
  intro input found rest notices hreads
  exact h (reads_within.mp hreads).1

end Reader.Gives

/-! ## The handles in a part -/

/-- A handler may name the class of the exceptions it catches. -/
def ExceptionHandler.typedIds (handler : ExceptionHandler) : List TypedId :=
  handler.catchType.toList.map .classInfo

/-- A parameter may have a name. -/
def MethodParameter.typedIds (parameter : MethodParameter) : List TypedId :=
  parameter.name.toList.map .utf8

/-- An entry has a name and a descriptor. -/
def VariableEntry.typedIds {Range : Type} (entry : VariableEntry Range) : List TypedId :=
  [.utf8 entry.name, .utf8 entry.descriptor]

/-- The handles in the entries of a table. -/
def LocalVariableTable.typedIds (table : LocalVariableTable) : List TypedId :=
  table.entries.flatMap VariableEntry.typedIds

mutual

/-- The handles in a value, with those in all that is inside it. -/
def ElementValue.typedIds : ElementValue → List TypedId
  | .constant _ _ => []
  | .enumConstant type name => [.utf8 type, .utf8 name]
  | .classInfo descriptor => [.utf8 descriptor]
  | .nested value => value.typedIds
  | .array values => valuesTypedIds values

def valuesTypedIds : List ElementValue → List TypedId
  | [] => []
  | value :: others => value.typedIds ++ valuesTypedIds others

/-- The handles in an annotation, with those in all that is inside it. -/
def Annotation.typedIds : Annotation → List TypedId
  | ⟨type, elements⟩ => .utf8 type :: elementsTypedIds elements

def elementsTypedIds : List AnnotationElement → List TypedId
  | [] => []
  | element :: others => element.typedIds ++ elementsTypedIds others

def AnnotationElement.typedIds : AnnotationElement → List TypedId
  | ⟨name, value⟩ => .utf8 name :: value.typedIds

end

mutual

/-- The handles in an attribute, with those in all attributes inside it. -/
def Attribute.typedIds : Attribute → List TypedId
  | ⟨name, payload⟩ => .utf8 name :: payload.typedIds

def Payload.typedIds : Payload → List TypedId
  | .code body => body.typedIds
  | .exceptions classes => classes.map .classInfo
  | .localVariables table => table.typedIds
  | .lineNumbers _ | .constantValue _ | .bootstrapMethods _ | .unknown _ => []
  | .sourceFile name | .signature name => [.utf8 name]
  | .methodParameters parameters => parameters.flatMap MethodParameter.typedIds
  | .annotations _ group => group.flatMap Annotation.typedIds
  | .parameterAnnotations _ groups => groups.flatMap fun group => group.flatMap Annotation.typedIds

def Code.typedIds : Code → List TypedId
  | ⟨_, _, _, handlers, attributes⟩ =>
    handlers.flatMap ExceptionHandler.typedIds ++ attributesTypedIds attributes

def attributesTypedIds : List Attribute → List TypedId
  | [] => []
  | attr :: others => attr.typedIds ++ attributesTypedIds others

end

/-- A member has a name, a descriptor, and the handles in its attributes. -/
def Member.typedIds {carrier : FlagCarrier} (part : Member carrier) : List TypedId :=
  .utf8 part.name :: .utf8 part.descriptor :: part.attributes.flatMap Attribute.typedIds

/-- The handles in a class, those in its constants apart. -/
def ClassFile.typedIds (file : ClassFile) : List TypedId :=
  .classInfo file.thisClass :: file.superClass.toList.map .classInfo
    ++ file.interfaces.map .classInfo ++ file.fields.flatMap Member.typedIds
    ++ file.methods.flatMap Member.typedIds ++ file.attributes.flatMap Attribute.typedIds

theorem valuesTypedIds_eq (values : List ElementValue) :
    valuesTypedIds values = values.flatMap ElementValue.typedIds := by
  induction values with
  | nil => rfl
  | cons value values ih => rw [valuesTypedIds, ih, List.flatMap_cons]

theorem elementsTypedIds_eq (elements : List AnnotationElement) :
    elementsTypedIds elements = elements.flatMap AnnotationElement.typedIds := by
  induction elements with
  | nil => rfl
  | cons element elements ih => rw [elementsTypedIds, ih, List.flatMap_cons]

theorem attributesTypedIds_eq (attributes : List Attribute) :
    attributesTypedIds attributes = attributes.flatMap Attribute.typedIds := by
  induction attributes with
  | nil => rfl
  | cons attr attributes ih => rw [attributesTypedIds, ih, List.flatMap_cons]

/-! ## Decoding -/

/-- Whether handles are all on constants of a pool, of the kinds that they say. -/
def Pool.Backs (pool : Pool) (handles : List TypedId) : Prop :=
  ∀ handle ∈ handles, handle.DenotesIn pool

section

variable {pool : Pool}

/-- A pool that backs some handles backs a text in front of them. -/
theorem Pool.backs_utf8 {name : Utf8Id} {handles : List TypedId}
    (h : pool.Leads [.utf8] name.id) (hothers : pool.Backs handles) :
    pool.Backs (.utf8 name :: handles) :=
  List.forall_mem_cons.mpr ⟨TypedId.denotesIn_iff_leads.mpr h, hothers⟩

theorem Pool.backs_nil (pool : Pool) : pool.Backs [] := fun _ hhandle => nomatch hhandle

/-- A pool that backs two lists of handles backs both together. -/
theorem Pool.backs_append {handles others : List TypedId} (h : pool.Backs handles)
    (hothers : pool.Backs others) : pool.Backs (handles ++ others) :=
  List.forall_mem_append.mpr ⟨h, hothers⟩

/-- Handles that are collected are backed exactly if those of each element are. -/
theorem Pool.backs_flatMap {α : Type} {handles : α → List TypedId} {elements : List α} :
    pool.Backs (elements.flatMap handles) ↔ ∀ element ∈ elements, pool.Backs (handles element) :=
  List.forall_mem_flatMap

/-- A pool backs handles on its classes. -/
theorem Pool.backs_map_classInfo {classes : List ClassId}
    (h : ∀ id ∈ classes, pool.Leads [.classInfo] id.id) : pool.Backs (classes.map .classInfo) :=
  List.forall_mem_map.mpr fun id hid => TypedId.denotesIn_iff_leads.mpr (h id hid)

/-! ### Handles by themselves -/

/-- What is read as a text is on a text. -/
theorem Pool.gives_readUtf8 (pool : Pool) :
    pool.readUtf8.Gives fun name => pool.Leads [.utf8] name.id :=
  .behind fun _ => .ofExcept fun _ => leads_of_utf8At

/-- What is read as a class is on a class. -/
theorem Pool.gives_readClass (pool : Pool) :
    pool.readClass.Gives fun id => pool.Leads [.classInfo] id.id :=
  .behind fun _ => .ofExcept fun _ => leads_of_classAt

/-- What is read as a name with a descriptor is on one. -/
theorem Pool.gives_readNameAndType (pool : Pool) :
    pool.readNameAndType.Gives fun id => pool.Leads [.nameAndType] id.id :=
  .behind fun _ => .ofExcept fun _ => leads_of_nameAndTypeAt

/-- Nothing has no handles, and a class is on a class. -/
theorem Pool.gives_readOptionalClass (pool : Pool) :
    pool.readOptionalClass.Gives fun id? => pool.Backs (id?.toList.map .classInfo) := by
  refine .behind fun index => ?_
  split
  · exact .pure pool.backs_nil
  · refine .map (.ofExcept fun _ => leads_of_classAt) fun id hid => ?_
    exact backs_map_classInfo (List.forall_mem_singleton.mpr hid)

/-! ### Rows of tables -/

theorem ExceptionHandler.gives_read (pool : Pool) :
    (ExceptionHandler.read pool).Gives fun handler => pool.Backs handler.typedIds :=
  .behind fun _ => .behind fun _ => .behind fun _ =>
    .bind pool.gives_readOptionalClass fun _ hclass => .pure hclass

/-- A name of no use is left out. -/
theorem MethodParameter.gives_read (pool : Pool) :
    (MethodParameter.read pool).Gives fun parameter => pool.Backs parameter.typedIds := by
  have hname : (readName pool).Gives fun name? => pool.Backs (name?.toList.map .utf8) := by
    refine .behind fun index => ?_
    split
    · exact .pure pool.backs_nil
    · split
      · rename_i name hname
        exact .pure (Pool.backs_utf8 (Pool.leads_of_utf8At hname) pool.backs_nil)
      · exact .behind fun _ => .pure pool.backs_nil
  exact .bind hname fun _ hbacks => .behind fun _ => .pure hbacks

/-- The handles of joined rows are those of the first of them. -/
theorem LocalVariableTable.gives_read (pool : Pool) :
    (LocalVariableTable.read pool).Gives fun table => pool.Backs table.typedIds := by
  intro input table rest notices hreads
  refine Pool.backs_flatMap.mpr (forall_of_reads_read (fun row entry hentry => ?_)
    (fun row next hrow _ => hrow) hreads)
  obtain ⟨name, hname, hnamed⟩ := bind_eq_ok_iff.mp hentry
  obtain ⟨descriptor, hdescriptor, htyped⟩ := bind_eq_ok_iff.mp hnamed
  obtain ⟨text, -, hparse⟩ := bind_eq_ok_iff.mp htyped
  obtain ⟨type, -, hpure⟩ := bind_eq_ok_iff.mp hparse
  obtain rfl := pure_eq_ok_iff.mp hpure
  exact Pool.backs_utf8 (Pool.leads_of_utf8At hname)
    (Pool.backs_utf8 (Pool.leads_of_utf8At hdescriptor) pool.backs_nil)

/-! ### Annotations -/

/-- An annotation that was read has a type and names that are text, and what its values have. -/
theorem Annotation.gives_readWith {value : Reader ElementValue}
    (h : value.Gives fun value => pool.Backs value.typedIds) :
    (readWith pool value).Gives fun whole => pool.Backs whole.typedIds := by
  refine .bind pool.gives_readUtf8 fun type htype => ?_
  have helement : (do
      let name ← pool.readUtf8
      return AnnotationElement.mk name (← value) : Reader AnnotationElement).Gives
        fun element => pool.Backs element.typedIds :=
    .bind pool.gives_readUtf8 fun _ hname => .bind h fun _ hvalue =>
      .pure (Pool.backs_utf8 hname hvalue)
  refine .bind (.sequence helement) fun elements helements => .pure ?_
  show pool.Backs (.utf8 type :: elementsTypedIds elements)
  rw [elementsTypedIds_eq]
  exact Pool.backs_utf8 htype (Pool.backs_flatMap.mpr helements)

/-- A level at a time, so the values one level below have been dealt with. -/
theorem ElementValue.gives_readWithin (pool : Pool) (levels : Nat) :
    (ElementValue.readWithin pool levels).Gives fun value => pool.Backs value.typedIds := by
  induction levels with
  | zero => exact .fail _
  | succ levels ih =>
    refine .behind fun tag => ?_
    split_ifs
    · refine .bind pool.gives_readUtf8 fun type htype => ?_
      exact .bind pool.gives_readUtf8 fun name hname =>
        .pure (Pool.backs_utf8 htype (Pool.backs_utf8 hname pool.backs_nil))
    · exact .bind pool.gives_readUtf8 fun _ hdescriptor =>
        .pure (Pool.backs_utf8 hdescriptor pool.backs_nil)
    · have hnested := Annotation.gives_readWith ih
      exact .bind hnested fun _ hvalue => .pure hvalue
    · refine .bind (.sequence ih) fun values hvalues => .pure ?_
      show pool.Backs (valuesTypedIds values)
      rw [valuesTypedIds_eq]
      exact Pool.backs_flatMap.mpr hvalues
    · unfold readConstant
      split
      · exact .fail _
      · exact .behind fun _ => .map (.any _) fun _ _ => pool.backs_nil

/-- The pool backs all handles in an annotation that was read from it. -/
theorem Annotation.gives_read (pool : Pool) :
    (read pool).Gives fun whole => pool.Backs whole.typedIds :=
  Annotation.gives_readWith (ElementValue.gives_readWithin pool _)

/-- So it does for a list of annotations. -/
theorem gives_readAnnotations (pool : Pool) :
    (readAnnotations pool).Gives fun group => pool.Backs (group.flatMap Annotation.typedIds) :=
  have helement := Annotation.gives_read pool
  fun _ _ _ _ hreads => Pool.backs_flatMap.mpr (helement.sequence hreads)

/-! ### Attributes -/

/-- The handlers of code catch classes, and the rest is for the attributes inside. -/
theorem Code.gives_read {nested : Reader Attribute}
    (h : nested.Gives fun attr => pool.Backs attr.typedIds) :
    (Code.read pool nested).Gives fun body => pool.Backs body.typedIds := by
  refine .behind fun maxStack => .behind fun maxLocals => .behind fun length =>
    .behind fun bytes => ?_
  refine .bind (.sequence (ExceptionHandler.gives_read pool)) fun handlers hhandlers => ?_
  refine .bind (.sequence h) fun attributes hattributes => .pure ?_
  show pool.Backs (handlers.flatMap ExceptionHandler.typedIds ++ attributesTypedIds attributes)
  rw [attributesTypedIds_eq]
  exact Pool.backs_append (Pool.backs_flatMap.mpr hhandlers) (Pool.backs_flatMap.mpr hattributes)

/-- Each kind of payload has handles of the kinds it reads. -/
theorem Payload.gives_read {nested : Reader Attribute}
    (h : nested.Gives fun attr => pool.Backs attr.typedIds) (kind : AttributeKind) :
    (Payload.read pool nested kind).Gives fun payload => pool.Backs payload.typedIds := by
  cases kind with
  | code => exact .map (Code.gives_read h) fun _ hbody => hbody
  | exceptions => exact .map (.sequence pool.gives_readClass) fun _ => Pool.backs_map_classInfo
  | localVariables => exact .map (LocalVariableTable.gives_read pool) fun _ htable => htable
  | lineNumbers | constantValue | bootstrapMethods =>
    exact .map (.any _) fun _ _ => pool.backs_nil
  | sourceFile | signature =>
    exact .map pool.gives_readUtf8 fun _ hname => Pool.backs_utf8 hname pool.backs_nil
  | methodParameters =>
    exact .map (.shortSequence (MethodParameter.gives_read pool)) fun _ => Pool.backs_flatMap.mpr
  | annotations visibility => exact .map (gives_readAnnotations pool) fun _ hgroup => hgroup
  | parameterAnnotations visibility =>
    exact .map (.shortSequence (gives_readAnnotations pool)) fun _ => Pool.backs_flatMap.mpr

/-- An attribute has a name that is text, and the handles in its payload. -/
theorem Attribute.gives_readWith {nested : Nat → Reader Attribute}
    (h : ∀ length, (nested length).Gives fun attr => pool.Backs attr.typedIds) :
    (Attribute.readWith pool nested).Gives fun attr => pool.Backs attr.typedIds := by
  refine .bind pool.gives_readUtf8 fun name hname => ?_
  refine .behind fun length => .behind fun data => .behind fun text => ?_
  split
  · rename_i kind _
    exact .bind (.within (Payload.gives_read (h length.toNat) kind)) fun _ hpayload =>
      .pure (Pool.backs_utf8 hname hpayload)
  · exact .behind fun _ => .pure (Pool.backs_utf8 hname pool.backs_nil)

/-- The attributes inside have been dealt with at the size below. -/
theorem Attribute.gives_readWithin (pool : Pool) (size : Nat) :
    (Attribute.readWithin pool size).Gives fun attr => pool.Backs attr.typedIds := by
  induction size with
  | zero => exact .fail _
  | succ size ih => exact Attribute.gives_readWith fun _ => ih

theorem Attribute.gives_read (pool : Pool) :
    (Attribute.read pool).Gives fun attr => pool.Backs attr.typedIds :=
  Attribute.gives_readWith (Attribute.gives_readWithin pool)

/-- The pool backs all handles in attributes that were read from it. -/
theorem gives_readAttributes (pool : Pool) :
    (readAttributes pool).Gives fun attributes =>
      pool.Backs (attributes.flatMap Attribute.typedIds) :=
  fun _ _ _ _ hreads =>
    Pool.backs_flatMap.mpr (Reader.Gives.sequence (Attribute.gives_read pool) hreads)

/-! ### Members and classes -/

/-- The pool backs all handles in a member that was read from it. -/
theorem Member.gives_read {carrier : FlagCarrier} (pool : Pool) :
    (Member.read pool : Reader (Member carrier)).Gives fun part => pool.Backs part.typedIds :=
  .behind fun _ => .bind pool.gives_readUtf8 fun _ hname =>
    .bind pool.gives_readUtf8 fun _ hdescriptor => .bind (gives_readAttributes pool)
      fun _ hattributes => .pure (Pool.backs_utf8 hname (Pool.backs_utf8 hdescriptor hattributes))

/-! ### All decoders -/

/-- The readers that decode something with a pool, each with the handles in what it takes. -/
inductive Pool.Decodes (pool : Pool) : (α : Type) → Reader α → (α → List TypedId) → Prop where
  | utf8 : Decodes pool Utf8Id pool.readUtf8 fun name => [.utf8 name]
  | classInfo : Decodes pool ClassId pool.readClass fun id => [.classInfo id]
  | nameAndType : Decodes pool NameAndTypeId pool.readNameAndType fun id => [.nameAndType id]
  | optionalClass :
    Decodes pool (Option ClassId) pool.readOptionalClass fun id? => id?.toList.map .classInfo
  | handler :
    Decodes pool ExceptionHandler (ExceptionHandler.read pool) ExceptionHandler.typedIds
  | parameter : Decodes pool MethodParameter (MethodParameter.read pool) MethodParameter.typedIds
  | localVariables :
    Decodes pool LocalVariableTable (LocalVariableTable.read pool) LocalVariableTable.typedIds
  | value (levels : Nat) :
    Decodes pool ElementValue (ElementValue.readWithin pool levels) ElementValue.typedIds
  | annotation : Decodes pool Annotation (readWhole pool) Annotation.typedIds
  | code (size : Nat) :
    Decodes pool Code (Code.read pool (Attribute.readWithin pool size)) Code.typedIds
  | payload (size : Nat) (kind : AttributeKind) : Decodes pool Payload
    (Payload.read pool (Attribute.readWithin pool size) kind) Payload.typedIds
  | attr : Decodes pool Attribute (Attribute.read pool) Attribute.typedIds
  | member (carrier : FlagCarrier) :
    Decodes pool (Member carrier) (Member.read pool) Member.typedIds
  | sequence {α : Type} {reader : Reader α} {handles : α → List TypedId}
    (h : Decodes pool α reader handles) :
    Decodes pool (List α) (Reader.sequence reader) fun found => found.flatMap handles
  | shortSequence {α : Type} {reader : Reader α} {handles : α → List TypedId}
    (h : Decodes pool α reader handles) :
    Decodes pool (List α) (Reader.shortSequence reader) fun found => found.flatMap handles

/-- **Whatever is decoded has handles on constants of the pool only, of the kinds they say.** -/
theorem Pool.Decodes.gives {α : Type} {reader : Reader α} {handles : α → List TypedId}
    (h : pool.Decodes α reader handles) : reader.Gives fun value => pool.Backs (handles value) := by
  induction h with
  | utf8 =>
    exact fun _ _ _ _ hreads => backs_utf8 (pool.gives_readUtf8 hreads) pool.backs_nil
  | classInfo =>
    exact fun _ _ _ _ hreads =>
      backs_map_classInfo (List.forall_mem_singleton.mpr (pool.gives_readClass hreads))
  | nameAndType =>
    exact fun _ _ _ _ hreads => List.forall_mem_singleton.mpr
      (TypedId.denotesIn_iff_leads.mpr (pool.gives_readNameAndType hreads))
  | optionalClass => exact pool.gives_readOptionalClass
  | handler => exact ExceptionHandler.gives_read pool
  | parameter => exact MethodParameter.gives_read pool
  | localVariables => exact LocalVariableTable.gives_read pool
  | value levels => exact ElementValue.gives_readWithin pool levels
  | annotation => exact Annotation.gives_read pool
  | code size => exact Code.gives_read (Attribute.gives_readWithin pool size)
  | payload size kind => exact Payload.gives_read (Attribute.gives_readWithin pool size) kind
  | attr => exact Attribute.gives_read pool
  | member carrier => exact Member.gives_read pool
  | sequence _ ih => exact fun _ _ _ _ hreads => backs_flatMap.mpr (Reader.Gives.sequence ih hreads)
  | shortSequence _ ih =>
    exact fun _ _ _ _ hreads => backs_flatMap.mpr (Reader.Gives.shortSequence ih hreads)

end

/-- Whether a pool can be read off some input. -/
def Pool.IsRead (tag : PoolTag) (pool : Pool) : Prop :=
  ∃ input rest notices, (Pool.read tag).Reads input pool rest notices

/-- A pool was read exactly if it is that of constants that raw ones resolve to. -/
theorem Pool.isRead_iff {tag : PoolTag} {pool : Pool} : pool.IsRead tag
    ↔ ∃ raws constants, Resolves tag raws constants ∧ pool = ofRead tag constants := by
  constructor
  · rintro ⟨input, rest, notices, hreads⟩
    obtain ⟨raws, constants, hresolves, hpool, -, -⟩ := reads_read_iff.mp hreads
    exact ⟨raws, constants, hresolves, hpool⟩
  · rintro ⟨raws, constants, hresolves, hpool⟩
    exact ⟨_, [], _, reads_read_iff.mpr ⟨raws, constants, hresolves, hpool, rfl, rfl⟩⟩

/-- A class comes with a pool that was read, and its handles are on constants of that pool. -/
theorem ClassFile.gives_read (tag : PoolTag) (verbosity : Verbosity) :
    (ClassFile.read tag verbosity).Gives fun file =>
      file.constants.IsRead tag ∧ file.constants.Backs file.typedIds := by
  have hcontents : (readContents tag).Gives fun file =>
      file.constants.IsRead tag ∧ file.constants.Backs file.typedIds := by
    refine .behind fun version => ?_
    have hpool : (Pool.read tag).Gives (Pool.IsRead tag) :=
      fun input _ rest notices hreads => ⟨input, rest, notices, hreads⟩
    refine .bind hpool fun pool hread => .behind fun flags => ?_
    refine .bind pool.gives_readClass fun thisClass hthis => ?_
    refine .bind pool.gives_readOptionalClass fun superClass hsuper => ?_
    refine .bind (.sequence pool.gives_readClass) fun interfaces hinterfaces => ?_
    refine .bind (.sequence (Member.gives_read pool)) fun fields hfields => ?_
    refine .bind (.sequence (Member.gives_read pool)) fun methods hmethods => ?_
    refine .bind (gives_readAttributes pool) fun attributes hattributes => .pure ⟨hread, ?_⟩
    show pool.Backs (_ :: _ ++ _ ++ _ ++ _ ++ _)
    refine Pool.backs_append (Pool.backs_append (Pool.backs_append (Pool.backs_append ?_ ?_) ?_) ?_)
      hattributes
    · exact List.forall_mem_cons.mpr ⟨TypedId.denotesIn_iff_leads.mpr hthis, hsuper⟩
    · exact Pool.backs_map_classInfo hinterfaces
    · exact Pool.backs_flatMap.mpr hfields
    · exact Pool.backs_flatMap.mpr hmethods
  refine .behind fun number => ?_
  split
  · exact .bind hcontents fun file hfile => .behind fun _ => .pure hfile
  · exact .fail _

end ClassFormat
