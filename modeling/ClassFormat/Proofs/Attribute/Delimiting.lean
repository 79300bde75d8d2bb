import ClassFormat.Class.Member
import ClassFormat.Proofs.Attribute.Payload
import ClassFormat.Proofs.Delimiting
/-!
# Attributes and members find their own end

What stands behind the pool is read with the pool at hand. The same bytes are read with another pool
in the same way if that one mirrors the first: an index that leads to a constant leads to its
counterpart there. So what follows is stated for two pools, of which the second mirrors the first;
`Pool.Paired` is how their handles go together. Apart from handles nothing that is read decides how
much is read next, except for numbers and the names of attributes, which are the same in both.
-/

namespace ClassFormat

variable {pool again : Pool} {indices later : Indices}

/-! ## Handles -/

namespace Pool

/-- Handles of two pools on constants at the same index. -/
structure Paired (again : Pool) (indices : Indices) (id other : ConstantId) : Prop where
  exists_index : ∃ index, indices.indexOf id = .ok index
  eq_counterpart : other = again.counterpart indices id

namespace Mirrors

/-- An index accepted by one pool is accepted by its mirror, and the two handles belong together. -/
theorem exists_idWithTag (h : again.Mirrors indices later pool) {tags : List ConstantTag}
    {role : ConstantRole} {index : UInt16} {id : ConstantId}
    (hid : pool.idWithTag tags role index = .ok id) :
    ∃ other, again.idWithTag tags role index = .ok other ∧ again.Paired indices id other := by
  obtain ⟨hindex, hkeeps⟩ := h.before.idWithTag_iff.mp hid
  have hwrite : indices.encode id = .ok (BigEndian.u16 index) :=
    LaidOut.encode_eq_ok_iff.mpr ⟨index, hindex, rfl⟩
  exact ⟨again.counterpart indices id, h.after.idWithTag_iff.mpr
    ⟨h.indexOf_counterpart hindex, h.keeps_counterpart hwrite hkeeps⟩, ⟨index, hindex⟩, rfl⟩

theorem exists_utf8At (h : again.Mirrors indices later pool) {index : UInt16} {name : Utf8Id}
    (hname : pool.utf8At index = .ok name) :
    ∃ other, again.utf8At index = .ok other ∧ again.Paired indices name.id other.id := by
  obtain ⟨id, hid, rfl⟩ := map_eq_ok_iff.mp hname
  obtain ⟨other, hother, hpaired⟩ := h.exists_idWithTag hid
  exact ⟨⟨other⟩, map_eq_ok_iff.mpr ⟨other, hother, rfl⟩, hpaired⟩

theorem exists_classAt (h : again.Mirrors indices later pool) {index : UInt16} {name : ClassId}
    (hname : pool.classAt index = .ok name) :
    ∃ other, again.classAt index = .ok other ∧ again.Paired indices name.id other.id := by
  obtain ⟨id, hid, rfl⟩ := map_eq_ok_iff.mp hname
  obtain ⟨other, hother, hpaired⟩ := h.exists_idWithTag hid
  exact ⟨⟨other⟩, map_eq_ok_iff.mpr ⟨other, hother, rfl⟩, hpaired⟩

/-- Handles that belong together stand for the same text. -/
theorem exists_text (h : again.Mirrors indices later pool) {name other : Utf8Id} {text : String}
    (hpaired : again.Paired indices name.id other.id) (htext : pool.text name = .ok text) :
    again.text other = .ok text := by
  obtain ⟨⟨index, hindex⟩, hother⟩ := hpaired
  have hwrite : indices.encode name.id = .ok (BigEndian.u16 index) :=
    LaidOut.encode_eq_ok_iff.mpr ⟨index, hindex, rfl⟩
  obtain rfl : other = ⟨again.counterpart indices name.id⟩ := congrArg Utf8Id.mk hother
  exact h.text_counterpart hwrite (.inl htext)

/-- An index of given kinds ends at the same byte over both pools, with paired handles. -/
theorem delimits_idWithTag (h : again.Mirrors indices later pool) (tags : List ConstantTag)
    (role : ConstantRole) :
    (Reader.u16 >>= fun index => Reader.ofExcept (pool.idWithTag tags role index)).Delimits
      (again.Paired indices)
      (Reader.u16 >>= fun index => Reader.ofExcept (again.idWithTag tags role index)) := by
  refine .bind .u16 ?_
  rintro index _ rfl
  exact .ofExcept fun id hid => h.exists_idWithTag hid

theorem delimits_readId (h : again.Mirrors indices later pool) :
    pool.readId.Delimits (again.Paired indices) again.readId := by
  refine .bind .u16 ?_
  rintro index _ rfl
  refine .ofExcept fun id hid => ?_
  have hindex := h.before.idAt_iff.mp hid
  exact ⟨_, (h.exists_counterpart hindex).1, ⟨index, hindex⟩, rfl⟩

theorem delimits_readUtf8 (h : again.Mirrors indices later pool) :
    pool.readUtf8.Delimits (fun name other => again.Paired indices name.id other.id)
      again.readUtf8 := by
  refine .bind .u16 ?_
  rintro index _ rfl
  exact .ofExcept fun name hname => h.exists_utf8At hname

theorem delimits_readClass (h : again.Mirrors indices later pool) :
    pool.readClass.Delimits (fun name other => again.Paired indices name.id other.id)
      again.readClass := by
  refine .bind .u16 ?_
  rintro index _ rfl
  exact .ofExcept fun name hname => h.exists_classAt hname

/-- An optional class ends at the same byte over both pools, whether it is there or not. -/
theorem delimits_readOptionalClass (h : again.Mirrors indices later pool) :
    pool.readOptionalClass.Delimits (fun _ _ => True) again.readOptionalClass := by
  refine .bind .u16 ?_
  rintro index _ rfl
  split
  · exact .pure trivial
  · exact .map (.ofExcept fun _ hname => h.exists_classAt hname) fun _ _ _ => trivial

end Mirrors

end Pool

/-- A payload is read by itself, so nothing can be missing from it. -/
protected theorem Reader.Delimits.within {α β : Type} {reader : Reader α} {other : Reader β}
    {alike : α → β → Prop} (h : reader.Delimits alike other) (name : String) (data : Bytes) :
    (reader.within name data).Delimits alike (other.within name data) := by
  refine .of_reads_nothing fun hreads => ?_
  obtain ⟨hdata, rfl⟩ := Reader.reads_within.mp hreads
  obtain ⟨used, found, left, hused, halike, hother, -⟩ := h.exists_used hdata
  refine ⟨rfl, found, left, halike, fun behind => Reader.reads_within.mpr ⟨?_, rfl⟩⟩
  have hwhole := hother []
  rwa [← hused] at hwhole

/-! ## What goes on alike whatever the pools hold -/

theorem delimits_flags (carrier : FlagCarrier) :
    (AccessFlags.read : Reader (AccessFlags carrier)).Delimits (· = ·) AccessFlags.read :=
  .map .u16 fun _ _ => congrArg AccessFlags.mk

theorem delimits_lineNumber : LineNumber.read.Delimits (fun _ _ => True) LineNumber.read := by
  refine .bind .u16 fun start _ _ => ?_
  refine .bind .u16 fun line _ _ => ?_
  exact .pure trivial

theorem delimits_row : VariableRow.read.Delimits (· = ·) VariableRow.read := by
  refine .bind .u16 fun start _ hstart => ?_
  refine .bind .u16 fun length _ hlength => ?_
  refine .bind .u16 fun name _ hname => ?_
  refine .bind .u16 fun descriptor _ hdescriptor => ?_
  refine .bind .u16 fun slot _ hslot => ?_
  exact .pure (by rw [hstart, hlength, hname, hdescriptor, hslot])

/-- Whether the name is of use or not, nothing more is read for it. -/
theorem delimits_parameterName (pool again : Pool) :
    (MethodParameter.readName pool).Delimits (fun _ _ => True)
      (MethodParameter.readName again) := by
  refine .bind .u16 ?_
  rintro index _ rfl
  split
  · exact .pure trivial
  · refine .of_skips ?_ ?_
    all_goals
      split
      · exact Reader.skips_pure _
      · exact Reader.skips_note _ _

theorem delimits_methodParameter (pool again : Pool) :
    (MethodParameter.read pool).Delimits (fun _ _ => True) (MethodParameter.read again) := by
  refine .bind (delimits_parameterName pool again) fun name other _ => ?_
  refine .bind (delimits_flags _) fun flags _ _ => ?_
  exact .pure trivial

/-- Whether a row is of use or not, nothing more is read for it. -/
theorem delimits_readRow (pool again : Pool) (found others : List (VariableEntry Span)) :
    (LocalVariableTable.readRow pool found).Delimits (fun _ _ => True)
      (LocalVariableTable.readRow again others) := by
  refine .bind delimits_row ?_
  rintro row _ rfl
  refine .of_skips ?_ ?_
  all_goals
    split
    · exact Reader.skips_pure _
    · exact Reader.skips_note _ _

theorem delimits_localVariables (pool again : Pool) :
    (LocalVariableTable.read pool).Delimits (fun _ _ => True) (LocalVariableTable.read again) := by
  refine .bind .u16 ?_
  rintro count _ rfl
  have hrows : (Reader.times count.toNat (LocalVariableTable.readRow pool) []).Delimits
      (fun _ _ => True) (Reader.times count.toNat (LocalVariableTable.readRow again) []) :=
    .times (fun found others _ => delimits_readRow pool again found others) count.toNat trivial
  refine .bind hrows fun found others _ => ?_
  exact .pure trivial

namespace Pool.Mirrors

/-! ## Annotations -/

section

open Annotation (readWith)

/-- An annotation delimits itself when the reader of its values does. -/
theorem delimits_annotation (h : again.Mirrors indices later pool)
    {value other : Reader ElementValue} (hvalue : value.Delimits (fun _ _ => True) other) :
    (readWith pool value).Delimits (fun _ _ => True) (readWith again other) := by
  have helement : (do
        let name ← pool.readUtf8
        return AnnotationElement.mk name (← value) : Reader AnnotationElement).Delimits
      (fun _ _ => True) (do
        let name ← again.readUtf8
        return AnnotationElement.mk name (← other)) := by
    refine .bind h.delimits_readUtf8 fun name _ _ => ?_
    refine .bind hvalue fun value _ _ => ?_
    exact .pure trivial
  refine .bind h.delimits_readUtf8 fun type _ _ => ?_
  refine .bind helement.sequence fun elements _ _ => ?_
  exact .pure trivial

end

/-- By induction on the levels that may be nested. -/
theorem delimits_elementValue (h : again.Mirrors indices later pool) (levels : Nat) :
    (ElementValue.readWithin pool levels).Delimits (fun _ _ => True)
      (ElementValue.readWithin again levels) := by
  induction levels with
  | zero => exact .fail _
  | succ levels ih =>
    unfold ElementValue.readWithin
    refine .bind .u8 ?_
    rintro tag _ rfl
    -- The tag decides what is read behind it, and it is the same for both.
    split
    · refine .bind h.delimits_readUtf8 fun type _ _ => ?_
      refine .bind h.delimits_readUtf8 fun name _ _ => ?_
      exact .pure trivial
    split
    · refine .bind h.delimits_readUtf8 fun descriptor _ _ => ?_
      exact .pure trivial
    split
    · refine .bind (h.delimits_annotation ih) fun nested _ _ => ?_
      exact .pure trivial
    split
    · refine .bind ih.sequence fun values _ _ => ?_
      exact .pure trivial
    unfold ElementValue.readConstant
    split
    · exact .fail _
    · refine .bind .u16 ?_
      rintro index _ rfl
      exact .map (.ofExcept fun id hid => h.exists_idWithTag hid) fun _ _ _ => trivial

/-- Lists of annotations delimit themselves, at every depth. -/
theorem delimits_annotations (h : again.Mirrors indices later pool) :
    (readAnnotations pool).Delimits (fun _ _ => True) (readAnnotations again) :=
  (h.delimits_annotation (h.delimits_elementValue _)).sequence

/-! ## Tables -/

theorem delimits_handler (h : again.Mirrors indices later pool) :
    (ExceptionHandler.read pool).Delimits (fun _ _ => True) (ExceptionHandler.read again) := by
  refine .bind .u16 fun start _ _ => ?_
  refine .bind .u16 fun stop _ _ => ?_
  refine .bind .u16 fun target _ _ => ?_
  refine .bind h.delimits_readOptionalClass fun catchType _ _ => ?_
  exact .pure trivial

theorem delimits_bootstrapMethod (h : again.Mirrors indices later pool) :
    (BootstrapMethod.read pool).Delimits (fun _ _ => True) (BootstrapMethod.read again) := by
  refine .bind .u16 ?_
  rintro index _ rfl
  refine .bind (.ofExcept fun id hid => h.exists_idWithTag hid) fun handle _ _ => ?_
  refine .bind h.delimits_readId.sequence fun arguments _ _ => ?_
  exact .pure trivial

theorem delimits_constantValue (h : again.Mirrors indices later pool) :
    (readConstantValue pool).Delimits (fun _ _ => True) (readConstantValue again) :=
  (h.delimits_idWithTag _ _).imp fun _ _ _ => trivial

/-! ## Attributes -/

/-- A code attribute delimits itself when the reader of the attributes inside does. -/
theorem delimits_code (h : again.Mirrors indices later pool) {nested others : Reader Attribute}
    (hnested : nested.Delimits (fun _ _ => True) others) :
    (Code.read pool nested).Delimits (fun _ _ => True) (Code.read again others) := by
  refine .bind .u16 fun maxStack _ _ => ?_
  refine .bind .u16 fun maxLocals _ _ => ?_
  refine .bind .u32 ?_
  rintro length _ rfl
  refine .bind (.block _) fun bytes _ _ => ?_
  refine .bind h.delimits_handler.sequence fun handlers _ _ => ?_
  refine .bind hnested.sequence fun attributes _ _ => ?_
  exact .pure trivial

/-- Every recognised payload delimits itself when the reader of nested attributes does. -/
theorem delimits_payload (h : again.Mirrors indices later pool) {nested others : Reader Attribute}
    (hnested : nested.Delimits (fun _ _ => True) others) (kind : AttributeKind) :
    (Payload.read pool nested kind).Delimits (fun _ _ => True)
      (Payload.read again others kind) := by
  cases kind with
  | code => exact .map (h.delimits_code hnested) fun _ _ _ => trivial
  | exceptions => exact .map h.delimits_readClass.sequence fun _ _ _ => trivial
  | localVariables => exact .map (delimits_localVariables pool again) fun _ _ _ => trivial
  | lineNumbers => exact .map delimits_lineNumber.sequence fun _ _ _ => trivial
  | constantValue => exact .map h.delimits_constantValue fun _ _ _ => trivial
  | sourceFile | signature => exact .map h.delimits_readUtf8 fun _ _ _ => trivial
  | bootstrapMethods => exact .map h.delimits_bootstrapMethod.sequence fun _ _ _ => trivial
  | methodParameters =>
    exact .map (delimits_methodParameter pool again).shortSequence fun _ _ _ => trivial
  | annotations => exact .map h.delimits_annotations fun _ _ _ => trivial
  | parameterAnnotations =>
    exact .map h.delimits_annotations.shortSequence fun _ _ _ => trivial

/-- The name has the same text in both pools, so the same kind of payload is read. -/
theorem delimits_attributeWith (h : again.Mirrors indices later pool)
    {nested others : Nat → Reader Attribute}
    (hnested : ∀ length, (nested length).Delimits (fun _ _ => True) (others length)) :
    (Attribute.readWith pool nested).Delimits (fun _ _ => True)
      (Attribute.readWith again others) := by
  refine .bind h.delimits_readUtf8 fun name other hname => ?_
  refine .bind .u32 ?_
  rintro length _ rfl
  refine .bind (.block _) ?_
  rintro data _ rfl
  have htext : (Reader.ofExcept (pool.text name)).Delimits (· = ·)
      (Reader.ofExcept (again.text other)) :=
    .ofExcept fun text htext => ⟨text, h.exists_text hname htext, rfl⟩
  refine .bind htext ?_
  rintro text _ rfl
  split
  · refine .bind ((h.delimits_payload (hnested _) _).within _ _) fun payload _ _ => ?_
    exact .pure trivial
  · refine .bind (.note _ _) fun _ _ _ => ?_
    exact .pure trivial

/-- By induction on the number of bytes that the attribute and those inside it may have. -/
theorem delimits_attributeWithin (h : again.Mirrors indices later pool) (size : Nat) :
    (Attribute.readWithin pool size).Delimits (fun _ _ => True)
      (Attribute.readWithin again size) := by
  induction size with
  | zero => exact .fail _
  | succ size ih => exact h.delimits_attributeWith fun _ => ih

/-- The list of attributes at the end of a class or a member delimits itself. -/
theorem delimits_attributes (h : again.Mirrors indices later pool) :
    (readAttributes pool).Delimits (fun _ _ => True) (readAttributes again) :=
  (h.delimits_attributeWith h.delimits_attributeWithin).sequence

/-! ## Members -/

/-- Fields and methods delimit themselves over mirrored pools. -/
theorem delimits_member (h : again.Mirrors indices later pool) (carrier : FlagCarrier) :
    (Member.read pool : Reader (Member carrier)).Delimits (fun _ _ => True)
      (Member.read again : Reader (Member carrier)) := by
  refine .bind (delimits_flags carrier) fun flags _ _ => ?_
  refine .bind h.delimits_readUtf8 fun name _ _ => ?_
  refine .bind h.delimits_readUtf8 fun descriptor _ _ => ?_
  refine .bind h.delimits_attributes fun attributes _ _ => ?_
  exact .pure trivial

end Pool.Mirrors

end ClassFormat
