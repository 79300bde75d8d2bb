import ClassFormat.Proofs.Attribute.Annotation
import ClassFormat.Proofs.Pool.Kinds
/-!
# How deep annotations nest

Writing takes a value of any depth, and reading goes 256 levels down. So a value that was written is
read again if nothing in it lies deeper, and refused for its depth if something does. The reader
meets the values of an annotation in the order in which they were written, and whatever it has read
when it meets the first one that is too deep was fine. That is why no other cause of failure comes
first.

`inner.LiesBelow depth outer` says how deep a value lies in another one. The reader has no such
number: it counts the levels that are left, and the two counts are matched by induction on them.
-/

namespace ClassFormat

open Annotation renaming read → readWhole

/-! ## Readers that refuse what was written -/

namespace Reader

variable {α β : Type} {reader : Reader α} {shape good : α → Prop}
  {write : α → Except Error Bytes} {cause : Error}

/-- An error stays what it is under a map. -/
theorem run_map_error {input : Bytes} (h : reader input = ⟨.error cause, []⟩) (f : α → β) :
    (f <$> reader) input = ⟨.error cause, []⟩ := by
  rw [← bind_pure_comp]
  exact run_bind_error h _

/-- Behind a value that is read, a failure is that of the next reader. -/
theorem run_bind_failing {next : α → Reader β} {value : α} {input rest : Bytes}
    (h : reader.Reads input value rest []) (hnext : next value rest = ⟨.error cause, []⟩) :
    (reader >>= next) input = ⟨.error cause, []⟩ := by
  rw [run_bind_ok h, hnext]
  rfl

/-- A reader refuses the writings of all values of a shape that are not good, for one cause. -/
structure Refuses (reader : Reader α) (shape good : α → Prop) (write : α → Except Error Bytes)
    (cause : Error) : Prop where
  refused : ∀ {value : α} {written : Bytes}, shape value → ¬ good value →
    write value = .ok written → ∀ rest, reader (written ++ rest) = ⟨.error cause, []⟩

namespace Refuses

/-- A refusal carries over to what is made of the value that is read. -/
theorem map (h : reader.Refuses shape good write cause) (f : α → β) (part : β → α) :
    (f <$> reader).Refuses (fun made => shape (part made)) (fun made => good (part made))
      (fun made => write (part made)) cause :=
  ⟨fun hshape hbad hwrite rest => run_map_error (h.refused hshape hbad hwrite rest) f⟩

/-- A pair whose first value is read is refused if the second one is. -/
theorem pair (h : reader.Refuses shape good write cause) {first : Reader β} {goodFirst : β → Prop}
    {writeFirst : β → Except Error Bytes} (hfirst : first.Takes goodFirst writeFirst) :
    (first.pair reader).Refuses (fun values => goodFirst values.1 ∧ shape values.2)
      (fun values => goodFirst values.1 ∧ good values.2)
      (fun values => appendWritten (writeFirst values.1) (write values.2)) cause := by
  constructor
  rintro ⟨value, other⟩ written ⟨hvalue, hshape⟩ hbad hwrite rest
  obtain ⟨used, more, hused, hmore, rfl⟩ := appendWritten_eq_ok_iff.mp hwrite
  rw [List.append_assoc]
  refine run_bind_failing (hfirst.reads_append hvalue hused _) ?_
  exact run_bind_error (h.refused hshape (fun hgood => hbad ⟨hvalue, hgood⟩) hmore rest) _

/-- Some values are refused at the first one that is not good; those before it are read. -/
theorem many (h : reader.Refuses shape good write cause) (htakes : reader.Takes good write)
    {values : List α} {written : Bytes} (hshape : ∀ value ∈ values, shape value)
    (hbad : ¬ ∀ value ∈ values, good value) (hwrite : encodeAll write values = .ok written)
    (rest : Bytes) :
    Reader.many values.length reader (written ++ rest) = ⟨.error cause, []⟩ := by
  induction values generalizing written with
  | nil => exact absurd (List.forall_mem_nil _) hbad
  | cons value values ih =>
    rw [List.forall_mem_cons] at hshape hbad
    rw [encodeAll_cons, appendWritten_eq_ok_iff] at hwrite
    obtain ⟨used, more, hused, hmore, rfl⟩ := hwrite
    rw [List.length_cons, many_succ, List.append_assoc]
    by_cases hgood : good value
    · refine run_bind_failing (htakes.reads_append hgood hused _) ?_
      exact run_map_error (ih hshape.2 (fun hall => hbad ⟨hgood, hall⟩) hmore) _
    · exact run_bind_error (h.refused hshape.1 hgood hused _) _

/-- One refused value refuses the whole list, since those before it are taken. -/
theorem sequence (h : reader.Refuses shape good write cause) (htakes : reader.Takes good write)
    (what : Quantity) :
    (Reader.sequence reader).Refuses (fun values => ∀ value ∈ values, shape value)
      (fun values => ∀ value ∈ values, good value) (encodeCounted what write) cause := by
  constructor
  intro values written hshape hbad hwrite rest
  obtain ⟨used, more, hused, hmore, rfl⟩ := appendWritten_eq_ok_iff.mp hwrite
  rw [sequence_eq, List.append_assoc]
  have hcount := (takes_toNat what).reads_append trivial hused
  exact run_bind_failing (hcount _) (h.many htakes hshape hbad hmore rest)

end Refuses

end Reader

/-! ## Kinds and levels of the values inside a value -/

/-- The names and the values of an annotation that was written were written. -/
theorem Annotation.exists_encode {indices : Indices} {whole : Annotation} {written : Bytes}
    (hwrite : whole.encode indices = .ok written) :
    (∃ bytes, indices.encode whole.type.id = .ok bytes)
      ∧ ∀ element ∈ whole.elements, (∃ bytes, indices.encode element.name.id = .ok bytes)
        ∧ ∃ bytes, element.value.encode indices = .ok bytes := by
  rw [encode_eq, appendWritten_eq_ok_iff] at hwrite
  obtain ⟨type, _, htype, helements, -⟩ := hwrite
  refine ⟨⟨type, htype⟩, fun element helement => ?_⟩
  obtain ⟨_, hbytes⟩ := exists_of_encodeCounted helements element helement
  rw [AnnotationElement.encode_eq, appendWritten_eq_ok_iff] at hbytes
  obtain ⟨name, value, hname, hvalue, -⟩ := hbytes
  exact ⟨⟨name, hname⟩, value, hvalue⟩

/-- A handle that is written leads to some constant. -/
theorem Pool.LaidOut.leads_iff {pool : Pool} {indices : Indices} (h : pool.LaidOut indices)
    {tags : List ConstantTag} {id : ConstantId}
    (hwrite : ∃ bytes, indices.encode id = .ok bytes) :
    pool.Leads tags id ↔ pool.Keeps tags id := by
  refine ⟨Pool.Leads.keeps, fun hkeeps => ?_⟩
  obtain ⟨_, hbytes⟩ := hwrite
  obtain ⟨index, hindex, -⟩ := map_eq_ok_iff.mp hbytes
  obtain ⟨constant, hconstant⟩ := h.exists_constant hindex
  exact ⟨constant, hconstant, hkeeps constant hconstant⟩

namespace ElementValue

/-- The values one level below a value: those in an array, and those of a nested annotation. -/
def parts : ElementValue → List ElementValue
  | nested whole => whole.elements.map AnnotationElement.value
  | array values => values
  | _ => []

/-- A value lies so many levels below another one. -/
inductive LiesBelow : ElementValue → Nat → ElementValue → Prop where
  | self (value : ElementValue) : LiesBelow value 0 value
  | part {inner part outer : ElementValue} {depth : Nat} (hpart : part ∈ outer.parts)
    (h : LiesBelow inner depth part) : LiesBelow inner (depth + 1) outer

/-- The constants that a value itself refers to are of the right kinds. The tag of a constant says
what it has to point at; every other handle is one on a text, and is given out for texts only. -/
def KindsMatch (pool : Pool) : ElementValue → Prop
  | constant tag value => ∃ expected, constantTag tag = some expected ∧ pool.Leads [expected] value
  | enumConstant type name => pool.Leads [.utf8] type.id ∧ pool.Leads [.utf8] name.id
  | classInfo descriptor => pool.Leads [.utf8] descriptor.id
  | nested whole => pool.Leads [.utf8] whole.type.id
    ∧ ∀ element ∈ whole.elements, pool.Leads [.utf8] element.name.id
  | array _ => True

/-- All constants in a value are of the right kinds, however deep they lie. -/
def WellKinded (pool : Pool) (outer : ElementValue) : Prop :=
  ∀ (inner : ElementValue) (depth : Nat), inner.LiesBelow depth outer → inner.KindsMatch pool

/-- Nothing in a value lies more than so many levels below it. -/
def NestsUpTo (limit : Nat) (outer : ElementValue) : Prop :=
  ∀ (inner : ElementValue) (depth : Nat), inner.LiesBelow depth outer → depth ≤ limit

variable {pool : Pool} {indices : Indices}

/-- What holds of all that lies in a value holds of it, and of all that lies in its parts. -/
theorem forall_liesBelow_iff {P : ElementValue → Nat → Prop} {outer : ElementValue} :
    (∀ (inner : ElementValue) (depth : Nat), inner.LiesBelow depth outer → P inner depth)
      ↔ P outer 0 ∧ ∀ part ∈ outer.parts, ∀ (inner : ElementValue) (depth : Nat),
        inner.LiesBelow depth part → P inner (depth + 1) := by
  constructor
  · intro h
    exact ⟨h outer 0 (.self outer), fun part hpart inner depth hbelow =>
      h inner (depth + 1) (.part hpart hbelow)⟩
  · rintro ⟨houter, hparts⟩ inner depth hbelow
    cases hbelow with
    | self => exact houter
    | part hpart hbelow => exact hparts _ hpart inner _ hbelow

/-- A value is well kinded when it is at its root and all of its members are. -/
theorem wellKinded_iff {value : ElementValue} : value.WellKinded pool
    ↔ value.KindsMatch pool ∧ ∀ part ∈ value.parts, part.WellKinded pool :=
  forall_liesBelow_iff

/-- The limit for a value is one more than the limit for its members. -/
theorem nestsUpTo_succ_iff {limit : Nat} {value : ElementValue} :
    value.NestsUpTo (limit + 1) ↔ ∀ part ∈ value.parts, part.NestsUpTo limit := by
  unfold NestsUpTo
  rw [forall_liesBelow_iff, and_iff_right (Nat.zero_le _)]
  simp only [Nat.add_le_add_iff_right]

/-- The parts of a value that was written were written. -/
theorem exists_encode_part {value part : ElementValue} {written : Bytes}
    (hwrite : value.encode indices = .ok written) (hpart : part ∈ value.parts) :
    ∃ bytes, part.encode indices = .ok bytes := by
  rw [encode_eq] at hwrite
  obtain ⟨-, used, -, hused, -⟩ := appendWritten_eq_ok_iff.mp hwrite
  cases value with
  | nested whole =>
    obtain ⟨element, helement, rfl⟩ := List.mem_map.mp hpart
    obtain ⟨-, helements⟩ := Annotation.exists_encode hused
    exact (helements element helement).2
  | array values => exact exists_of_encodeCounted hused part hpart
  | _ => cases hpart

/-- A value that was written fits if its own constants are of the right kinds and its parts fit in
one level less. -/
theorem fitsIn_succ_iff (h : pool.LaidOut indices) {value : ElementValue} {written : Bytes}
    (hwrite : value.encode indices = .ok written) (levels : Nat) :
    value.FitsIn pool (levels + 1)
      ↔ value.KindsMatch pool ∧ ∀ part ∈ value.parts, part.FitsIn pool levels := by
  rw [encode_eq] at hwrite
  obtain ⟨-, used, -, hused, -⟩ := appendWritten_eq_ok_iff.mp hwrite
  cases value with
  | constant tag value => simp [FitsIn, KindsMatch, parts, h.leads_iff ⟨used, hused⟩]
  | enumConstant type name =>
    obtain ⟨front, behind, htype, hname, -⟩ := appendWritten_eq_ok_iff.mp hused
    simp [FitsIn, KindsMatch, parts, h.leads_iff ⟨front, htype⟩, h.leads_iff ⟨behind, hname⟩]
  | classInfo descriptor => simp [FitsIn, KindsMatch, parts, h.leads_iff ⟨used, hused⟩]
  | nested whole =>
    obtain ⟨htype, helements⟩ := Annotation.exists_encode hused
    have hnames : ∀ element ∈ whole.elements, pool.Leads [.utf8] element.name.id
        ↔ pool.Keeps [.utf8] element.name.id :=
      fun element helement => h.leads_iff (helements element helement).1
    rw [KindsMatch, forall₂_congr hnames, h.leads_iff htype, and_assoc, parts,
      List.forall_mem_map, ← forall₂_and]
    rfl
  | array values => simp [FitsIn, KindsMatch, parts]

/-- Levels left and levels below count the same. -/
theorem fitsIn_iff (h : pool.LaidOut indices) (levels : Nat) {value : ElementValue}
    {written : Bytes} (hwrite : value.encode indices = .ok written) :
    value.FitsIn pool levels ↔ ∀ (inner : ElementValue) (depth : Nat), inner.LiesBelow depth value →
      depth < levels ∧ inner.KindsMatch pool := by
  induction levels generalizing value written with
  | zero => exact iff_of_false id fun hall => absurd (hall value 0 (.self value)).1 (by omega)
  | succ levels ih =>
    rw [fitsIn_succ_iff h hwrite, forall_liesBelow_iff]
    refine and_congr ⟨fun hkinds => ⟨levels.succ_pos, hkinds⟩, And.right⟩
      (forall₂_congr fun part hpart => ?_)
    obtain ⟨bytes, hbytes⟩ := exists_encode_part hwrite hpart
    simp only [ih hbytes, Nat.add_lt_add_iff_right]

/-- At the outermost level, to fit is to have the right kinds and not to nest too deep. -/
theorem fits_outermost_iff (h : pool.LaidOut indices) {value : ElementValue} {written : Bytes}
    (hwrite : value.encode indices = .ok written) :
    value.FitsIn pool (maxNesting + 1) ↔ value.WellKinded pool ∧ value.NestsUpTo maxNesting := by
  rw [fitsIn_iff h _ hwrite, WellKinded, NestsUpTo]
  constructor
  · intro hall
    exact ⟨fun inner depth hbelow => (hall inner depth hbelow).2,
      fun inner depth hbelow => Nat.lt_succ_iff.mp (hall inner depth hbelow).1⟩
  · rintro ⟨hkinds, hnests⟩ inner depth hbelow
    exact ⟨Nat.lt_succ_iff.mpr (hnests inner depth hbelow), hkinds inner depth hbelow⟩

end ElementValue

/-! ## Refusing what is too deep -/

section

variable {pool : Pool} {indices : Indices}

/-- An annotation is refused as its first bad value is, if its names are names of texts. -/
theorem Annotation.refuses_readWith (h : pool.LaidOut indices) {part : Reader ElementValue}
    {shape good : ElementValue → Prop} {cause : Error}
    (htakes : part.Takes good (ElementValue.encode indices))
    (hpart : part.Refuses shape good (ElementValue.encode indices) cause) :
    (readWith pool part).Refuses (FitsWith pool shape) (FitsWith pool good) (encode indices)
      cause := by
  have helement : (AnnotationElement.readWith pool part).Refuses
      (fun element => pool.Keeps [.utf8] element.name.id ∧ shape element.value)
      (fun element => pool.Keeps [.utf8] element.name.id ∧ good element.value)
      (AnnotationElement.encode indices) cause := by
    rw [funext (AnnotationElement.encode_eq indices)]
    exact (hpart.pair h.takes_readUtf8).map _ fun element : AnnotationElement =>
      (element.name, element.value)
  have helements := helement.sequence (AnnotationElement.takes_readWith h htakes) .elementCount
  rw [readWith_eq, funext (encode_eq indices)]
  exact (helements.pair h.takes_readUtf8).map _ fun whole : Annotation =>
    (whole.type, whole.elements)

/-- A value that needs more levels than are left is refused for its depth. -/
theorem ElementValue.refuses_readWithin (h : pool.LaidOut indices) (levels : Nat) :
    (readWithin pool levels).Refuses (WellKinded pool) (FitsIn pool levels) (encode indices)
      (.outOfRange .nestingDepth (maxNesting + 1)) := by
  induction levels with
  | zero => exact ⟨fun _ _ _ _ => rfl⟩
  | succ levels ih =>
    constructor
    intro value written hkinds hdeep hwrite rest
    have hfits := fitsIn_succ_iff h hwrite levels
    obtain ⟨hkind, hkinds⟩ := wellKinded_iff.mp hkinds
    rw [encode_eq] at hwrite
    obtain ⟨_, used, htag, hused, rfl⟩ := appendWritten_eq_ok_iff.mp hwrite
    cases htag
    rw [readWithin_succ, List.append_assoc]
    refine Reader.run_bind_failing (Reader.reads_u8.mpr ⟨rfl, rfl⟩) ?_
    -- The value itself is of the right kind, so one of its parts is too deep.
    cases value with
    | nested whole =>
      have hrefuses := Annotation.refuses_readWith h (takes_readWithin h levels) ih
      have hwhole : whole.FitsWith pool (WellKinded pool) :=
        ⟨hkind.1.keeps, fun element helement =>
          ⟨(hkind.2 element helement).keeps, hkinds _ (List.mem_map_of_mem helement)⟩⟩
      exact Reader.run_map_error (hrefuses.refused hwhole hdeep hused rest) _
    | array values =>
      have hrefuses := ih.sequence (takes_readWithin h levels) .sequenceLength
      exact Reader.run_map_error (hrefuses.refused hkinds hdeep hused rest) _
    | _ => exact absurd (hfits.mpr ⟨hkind, List.forall_mem_nil _⟩) hdeep

end

/-! ## Depths instead of levels -/

namespace ElementValue

variable {pool : Pool}

/-- Reading a value that lies at a depth, given how the values one level deeper are read. The depth
is judged before anything is read. -/
def readAt (pool : Pool) (depth : Nat) (deeper : Reader ElementValue) : Reader ElementValue :=
  if maxNesting < depth then Reader.fail (.outOfRange .nestingDepth depth)
  else Reader.u8 >>= readBody pool deeper

/-- Beyond the limit the reader of the members is never used. -/
theorem readAt_congr {depth : Nat} {deeper other : Reader ElementValue}
    (h : depth ≤ maxNesting → deeper = other) :
    readAt pool depth deeper = readAt pool depth other := by
  unfold readAt
  by_cases hdepth : maxNesting < depth
  · rw [if_pos hdepth, if_pos hdepth]
  · rw [h (Nat.not_lt.mp hdepth)]

/-- Counting the levels left and counting the levels passed describe the same reader. -/
theorem readWithin_eq_readAt {levels depth : Nat} (h : levels + depth = maxNesting + 1) :
    readWithin pool levels = readAt pool depth (readWithin pool (levels - 1)) := by
  unfold readAt
  cases levels with
  | zero => rw [if_pos (by omega), readWithin, ← h, Nat.zero_add]
  | succ levels =>
    rw [if_neg (by omega), readWithin_succ]
    rfl

/-- Reading by depths is reading by levels, as far as there are levels. -/
theorem exists_forall_eq_readAt (pool : Pool) : ∃ decoder : Nat → Reader ElementValue,
    (∀ depth, decoder depth = readAt pool depth (decoder (depth + 1))) ∧ decoder 0 = read pool := by
  refine ⟨fun depth => readAt pool depth (readWithin pool (maxNesting - depth)), fun depth => ?_,
    (readWithin_eq_readAt (Nat.add_zero _)).symm⟩
  refine readAt_congr fun hdepth => ?_
  rw [readWithin_eq_readAt (show maxNesting - depth + (depth + 1) = maxNesting + 1 by omega),
    Nat.sub_sub]

/-- Whatever reads the values at each depth by those one level deeper reads them by the levels that
are left. Below the first depth that is too deep it may do anything. -/
theorem eq_readWithin_of_forall {decoder : Nat → Reader ElementValue}
    (hsteps : ∀ depth ≤ maxNesting + 1, decoder depth = readAt pool depth (decoder (depth + 1)))
    {levels depth : Nat} (hdepth : levels + depth = maxNesting + 1) :
    decoder depth = readWithin pool levels := by
  -- The induction goes up from the depth that is refused.
  induction levels generalizing depth with
  | zero =>
    rw [hsteps depth (by omega), readWithin_eq_readAt hdepth]
    exact readAt_congr fun hle => absurd hle (by omega)
  | succ levels ih =>
    rw [hsteps depth (by omega), readWithin_eq_readAt hdepth]
    exact readAt_congr fun _ => ih (by omega)

end ElementValue

/-! ## Reading what was written -/

/-- In a pool that has indices, a value that was written is read again, whatever stands behind it,
if nothing in it lies more than 256 levels deep. It is refused for a depth of 257 if something does.
Reading takes such values only, and such values in annotations, off the bytes they are written as.

Reading counts depths from the outermost value on, and it never gets past depth 257: nothing that
would be read below that depth makes a difference. -/
theorem nesting_exact (pool : Pool) :
    (∀ indices, pool.Reachable → pool.resolve = .ok indices →
      (∀ (value : ElementValue) written, value.WellKinded pool →
        value.encode indices = .ok written → ∀ rest,
        (value.NestsUpTo maxNesting →
          (ElementValue.read pool).Reads (written ++ rest) value rest [])
        ∧ (¬ value.NestsUpTo maxNesting → ElementValue.read pool (written ++ rest)
          = ⟨.error (.outOfRange .nestingDepth (maxNesting + 1)), []⟩))
      ∧ (∀ input value rest notices, (ElementValue.read pool).Reads input value rest notices →
        value.WellKinded pool ∧ value.NestsUpTo maxNesting ∧ notices = []
          ∧ ∃ used, value.encode indices = .ok used ∧ input = used ++ rest)
      ∧ ∀ input whole rest notices, (readWhole pool).Reads input whole rest notices →
        pool.Leads [.utf8] whole.type.id
          ∧ (∀ element ∈ whole.elements, pool.Leads [.utf8] element.name.id
            ∧ element.value.WellKinded pool ∧ element.value.NestsUpTo maxNesting)
          ∧ notices = [] ∧ ∃ used, whole.encode indices = .ok used ∧ input = used ++ rest)
    ∧ (∃ decoder : Nat → Reader ElementValue,
      (∀ depth, decoder depth = ElementValue.readAt pool depth (decoder (depth + 1)))
        ∧ decoder 0 = ElementValue.read pool)
    ∧ ∀ decoder : Nat → Reader ElementValue,
      (∀ depth ≤ maxNesting + 1,
        decoder depth = ElementValue.readAt pool depth (decoder (depth + 1))) →
      decoder 0 = ElementValue.read pool := by
  refine ⟨fun indices hreachable hresolve => ?_, ElementValue.exists_forall_eq_readAt pool,
    fun decoder hsteps => ElementValue.eq_readWithin_of_forall hsteps (Nat.add_zero _)⟩
  have h : pool.LaidOut indices := ⟨hreachable.valid, hresolve⟩
  have htakes := ElementValue.takes_readWithin h (maxNesting + 1)
  refine ⟨fun value written hkinds hwrite rest => ?_, ?_, ?_⟩
  · have hfits := ElementValue.fits_outermost_iff h hwrite
    constructor
    · intro hnests
      exact htakes.reads_append (hfits.mpr ⟨hkinds, hnests⟩) hwrite rest
    · intro hdeep
      have hrefuses := ElementValue.refuses_readWithin h (maxNesting + 1)
      exact hrefuses.refused hkinds (fun hgood => hdeep (hfits.mp hgood).2) hwrite rest
  · intro input value rest notices hreads
    obtain ⟨rfl, hgood, used, hused, rfl⟩ := htakes.iff.mp hreads
    obtain ⟨hkinds, hnests⟩ := (ElementValue.fits_outermost_iff h hused).mp hgood
    exact ⟨hkinds, hnests, rfl, used, hused, rfl⟩
  · intro input whole rest notices hreads
    have htakesWhole := Annotation.takes_read h
    obtain ⟨rfl, ⟨htype, helements⟩, used, hused, rfl⟩ := htakesWhole.iff.mp hreads
    obtain ⟨htypeWritten, hwritten⟩ := Annotation.exists_encode hused
    refine ⟨(h.leads_iff htypeWritten).mpr htype, fun element helement => ?_, rfl, used, hused,
      rfl⟩
    obtain ⟨hname, bytes, hvalue⟩ := hwritten element helement
    obtain ⟨hkeeps, hgood⟩ := helements element helement
    exact ⟨(h.leads_iff hname).mpr hkeeps, (ElementValue.fits_outermost_iff h hvalue).mp hgood⟩

namespace ElementValue

/-- An empty array inside so many arrays of one value. -/
def tower : Nat → ElementValue
  | 0 => array []
  | height + 1 => array [tower height]

theorem wellKinded_tower (pool : Pool) (height : Nat) : (tower height).WellKinded pool := by
  induction height with
  | zero => exact wellKinded_iff.mpr ⟨trivial, List.forall_mem_nil _⟩
  | succ height ih => exact wellKinded_iff.mpr ⟨trivial, List.forall_mem_singleton.mpr ih⟩

/-- A tower of arrays nests as deep as it is high. -/
theorem nestsUpTo_tower_iff (height limit : Nat) :
    (tower height).NestsUpTo limit ↔ height ≤ limit := by
  induction height generalizing limit with
  | zero =>
    refine iff_of_true (forall_liesBelow_iff.mpr ⟨limit.zero_le, ?_⟩) limit.zero_le
    exact List.forall_mem_nil _
  | succ height ih =>
    cases limit with
    | zero =>
      have hbelow : (tower height).LiesBelow 1 (tower (height + 1)) :=
        .part (List.mem_singleton_self _) (.self _)
      exact iff_of_false (fun hnests => absurd (hnests _ 1 hbelow) (by omega)) (by omega)
    | succ limit =>
      rw [nestsUpTo_succ_iff, Nat.add_le_add_iff_right, ← ih]
      exact List.forall_mem_singleton

/-- Writing has no limit on the depth, so every tower can be written. -/
theorem exists_encode_tower (indices : Indices) (height : Nat) :
    ∃ written, (tower height).encode indices = .ok written := by
  induction height with
  | zero => exact ⟨_, rfl⟩
  | succ height ih =>
    obtain ⟨written, hwritten⟩ := ih
    have hcount : narrow16 .sequenceLength 1 = .ok 1 :=
      narrow16_eq_ok_iff.mpr ⟨by decide, rfl⟩
    have hvalues : encodeAll (encode indices) [tower height] = .ok written := by
      rw [encodeAll_cons, hwritten, encodeAll_nil, appendWritten_nil]
    rw [tower, encode_eq, body, encodeCounted, List.length_singleton, hcount, hvalues]
    exact ⟨_, rfl⟩

end ElementValue

/-- A tower of arrays is read up to a height of 256. -/
theorem nesting_exact_of_tower : ∃ indices written higher,
    (Pool.empty ⟨0⟩).resolve = .ok indices
    ∧ (ElementValue.tower 256).encode indices = .ok written
    ∧ (ElementValue.read (Pool.empty ⟨0⟩)).Reads (written ++ []) (.tower 256) [] []
    ∧ (ElementValue.tower 257).encode indices = .ok higher
    ∧ ElementValue.read (Pool.empty ⟨0⟩) (higher ++ [])
      = ⟨.error (.outOfRange .nestingDepth 257), []⟩ := by
  obtain ⟨written, hwritten⟩ := ElementValue.exists_encode_tower _ 256
  obtain ⟨higher, hhigher⟩ := ElementValue.exists_encode_tower _ 257
  refine ⟨_, written, higher, rfl, hwritten, ?_, hhigher, ?_⟩
  · have h := (nesting_exact (Pool.empty ⟨0⟩)).1 _ (.empty ⟨0⟩) rfl
    exact (h.1 _ written (ElementValue.wellKinded_tower _ _) hwritten []).1
      ((ElementValue.nestsUpTo_tower_iff 256 maxNesting).mpr (by decide))
  · have h := (nesting_exact (Pool.empty ⟨0⟩)).1 _ (.empty ⟨0⟩) rfl
    exact (h.1 _ higher (ElementValue.wellKinded_tower _ _) hhigher []).2
      ((ElementValue.nestsUpTo_tower_iff 257 maxNesting).not.mpr (by decide))

end ClassFormat
