import ClassFormat.Attribute.Write
import ClassFormat.Proofs.Reading
import ClassFormat.Proofs.Writing
/-!
# Readers and writers that belong together

The plain parts of a class file are read in exactly one way: `reader.Takes good write` says that a
reader takes exactly the good values, each off the bytes that writing it gives. Where reading is
lenient, or the pool that was written is not the pool that is read, the two directions part.
`reader.Rewrites good fits write` says what becomes of a value that was read when it is written: the
bytes it was read from come back unless something was lost, and writing fails only where something
does not fit. `reader.Rereads good write become` says that a good value that was written is read as
what it becomes, and nothing is lost.

Both directions carry over to pairs, to sequences, and to whatever is made of them.
-/

namespace ClassFormat

/-- A notice of something in a class file that was left out. -/
inductive Notice.IsDrop : Notice → Prop where
  | row (slot : UInt16) (cause : Error) : IsDrop (.droppedRow slot cause)
  | parameterName (cause : Error) : IsDrop (.droppedParameterName cause)

/-- Whether nothing was left out. -/
def Quiet (notices : List Notice) : Prop := ∀ notice ∈ notices, ¬ notice.IsDrop

@[simp] theorem quiet_nil : Quiet [] := by
  intro notice hnotice
  cases hnotice

/-- A single notice of something else leaves nothing out. -/
theorem quiet_singleton {notice : Notice} (h : ¬ notice.IsDrop) : Quiet [notice] :=
  List.forall_mem_singleton.mpr h

theorem quiet_append {notices others : List Notice} :
    Quiet (notices ++ others) ↔ Quiet notices ∧ Quiet others :=
  List.forall_mem_append

/-! ## Writing one part after the other -/

section

variable {α : Type} {encode : α → Except Error Bytes}

/-- Two writings, one after the other. -/
def appendWritten (first second : Except Error Bytes) : Except Error Bytes := do
  return (← first) ++ (← second)

/-- The writings of some elements, one after the other. -/
def encodeAll (encode : α → Except Error Bytes) (elements : List α) : Except Error Bytes :=
  List.flatten <$> elements.mapM encode

/-- Some elements behind their number, which has a name. -/
def encodeCounted (what : Quantity) (encode : α → Except Error Bytes) (elements : List α) :
    Except Error Bytes :=
  appendWritten (BigEndian.u16 <$> narrow16 what elements.length) (encodeAll encode elements)

/-- Two parts are written when both can be, and then as their bytes one after the other. -/
theorem appendWritten_eq_ok_iff {first second : Except Error Bytes} {written : Bytes} :
    appendWritten first second = .ok written
      ↔ ∃ used more, first = .ok used ∧ second = .ok more ∧ written = used ++ more := by
  simp only [appendWritten, bind_eq_ok_iff, pure_eq_ok_iff]
  constructor
  · rintro ⟨used, hused, more, hmore, rfl⟩
    exact ⟨used, more, hused, hmore, rfl⟩
  · rintro ⟨used, more, hused, hmore, rfl⟩
    exact ⟨used, hused, more, hmore, rfl⟩

theorem appendWritten_nil (bytes : Bytes) : appendWritten (.ok bytes) (.ok []) = .ok bytes := by
  show Except.ok (bytes ++ []) = _
  rw [List.append_nil]

theorem nil_appendWritten (written : Except Error Bytes) :
    appendWritten (.ok []) written = written := by
  cases written <;> rfl

theorem appendWritten_assoc (first second third : Except Error Bytes) :
    appendWritten (appendWritten first second) third
      = appendWritten first (appendWritten second third) := by
  cases first with
  | error cause => rfl
  | ok bytes =>
    cases second with
    | error cause => rfl
    | ok more =>
      cases third with
      | error cause => rfl
      | ok others =>
        show Except.ok (bytes ++ more ++ others) = Except.ok (bytes ++ (more ++ others))
        rw [List.append_assoc]

theorem encodeAll_nil : encodeAll encode [] = .ok [] := rfl

theorem encodeAll_cons (element : α) (elements : List α) :
    encodeAll encode (element :: elements)
      = appendWritten (encode element) (encodeAll encode elements) := by
  rw [encodeAll, List.mapM_cons]
  cases encode element with
  | error cause => rfl
  | ok bytes =>
    rw [encodeAll]
    cases elements.mapM encode <;> rfl

theorem encodeAll_append (elements others : List α) : encodeAll encode (elements ++ others)
    = appendWritten (encodeAll encode elements) (encodeAll encode others) := by
  induction elements with
  | nil => rw [List.nil_append, encodeAll_nil, nil_appendWritten]
  | cons element elements ih =>
    rw [List.cons_append, encodeAll_cons, encodeAll_cons, ih, appendWritten_assoc]

/-- Elements that were written were written each. -/
theorem exists_of_encodeAll {elements : List α} {written : Bytes}
    (hwrite : encodeAll encode elements = .ok written) :
    ∀ element ∈ elements, ∃ bytes, encode element = .ok bytes := by
  induction elements generalizing written with
  | nil => simp
  | cons element elements ih =>
    rw [encodeAll_cons, appendWritten_eq_ok_iff] at hwrite
    obtain ⟨used, more, hused, hmore, -⟩ := hwrite
    exact List.forall_mem_cons.mpr ⟨⟨used, hused⟩, ih hmore⟩

theorem exists_of_encodeCounted {what : Quantity} {elements : List α} {written : Bytes}
    (hwrite : encodeCounted what encode elements = .ok written) :
    ∀ element ∈ elements, ∃ bytes, encode element = .ok bytes := by
  obtain ⟨-, more, -, hmore, -⟩ := appendWritten_eq_ok_iff.mp hwrite
  exact exists_of_encodeAll hmore

/-- One more element comes behind those already written (last one first). -/
theorem bind_accumulate {next : List Bytes → Except Error Bytes} {others : Except Error Bytes}
    {written : List Bytes}
    (h : ∀ written, next written = appendWritten (.ok written.reverse.flatten) others)
    (first : Except Error Bytes) :
    (first >>= fun bytes => next (bytes :: written))
      = appendWritten (.ok written.reverse.flatten) (appendWritten first others) := by
  cases first with
  | error cause => rfl
  | ok bytes =>
    rw [← appendWritten_assoc]
    refine (h (bytes :: written)).trans ?_
    rw [List.reverse_cons, List.flatten_append, List.flatten_cons, List.flatten_nil,
      List.append_nil]
    rfl

/-- A sequence is a counted list whose count is named after its length. -/
theorem encodeSequence_eq :
    encodeSequence encode = encodeCounted .sequenceLength encode := by
  funext elements
  rw [encodeSequence, encodeCounted, encodeAll]
  cases narrow16 .sequenceLength elements.length with
  | error cause => rfl
  | ok count => cases elements.mapM encode <;> rfl

theorem encodeShortSequence_eq (what : Quantity) :
    encodeShortSequence what encode = fun elements =>
      appendWritten (BigEndian.u8 <$> narrow8 what elements.length)
        (encodeAll encode elements) := by
  funext elements
  rw [encodeShortSequence, encodeAll]
  cases narrow8 what elements.length with
  | error cause => rfl
  | ok count => cases elements.mapM encode <;> rfl

/-! ### Lengths -/

theorem length_of_appendWritten {first second : Except Error Bytes} {written : Bytes} {n m : Nat}
    (hwrite : appendWritten first second = .ok written)
    (hfirst : ∀ bytes, first = .ok bytes → bytes.length = n)
    (hsecond : ∀ bytes, second = .ok bytes → bytes.length = m) : written.length = n + m := by
  obtain ⟨used, more, hused, hmore, rfl⟩ := appendWritten_eq_ok_iff.mp hwrite
  rw [List.length_append, hfirst used hused, hsecond more hmore]

/-- Elements written one after the other take the sum of what each of them takes. -/
theorem length_of_encodeAll {size : α → Nat} {elements : List α} {written : Bytes}
    (hwrite : encodeAll encode elements = .ok written)
    (h : ∀ element ∈ elements, ∀ bytes, encode element = .ok bytes →
      bytes.length = size element) : written.length = (elements.map size).sum := by
  induction elements generalizing written with
  | nil =>
    cases hwrite
    rfl
  | cons element elements ih =>
    rw [List.forall_mem_cons] at h
    rw [encodeAll_cons] at hwrite
    rw [List.map_cons, List.sum_cons]
    exact length_of_appendWritten hwrite h.1 fun bytes hbytes => ih hbytes h.2

theorem length_of_encodeCounted {what : Quantity} {size : α → Nat} {elements : List α}
    {written : Bytes} (hwrite : encodeCounted what encode elements = .ok written)
    (h : ∀ element ∈ elements, ∀ bytes, encode element = .ok bytes →
      bytes.length = size element) : written.length = 2 + (elements.map size).sum := by
  refine length_of_appendWritten hwrite (fun bytes hbytes => ?_)
    fun bytes hbytes => length_of_encodeAll hbytes h
  obtain ⟨count, -, rfl⟩ := map_eq_ok_iff.mp hbytes
  exact BigEndian.length_u16 count

end

/-! ## What was read is written back -/

/-- What becomes of bytes that were read when the value is written: they come back if nothing was
lost, others do if something was, and the only failure is that of code which does not fit. -/
structure Rewritten (fits : Prop) (used : Bytes) (notices : List Notice)
    (written : Except Error Bytes) : Prop where
  of_fits : fits → ∃ bytes, written = .ok bytes ∧ bytes.length ≤ used.length
    ∧ (bytes = used ↔ Quiet notices)
  of_not_fits : ¬ fits → ∃ length, Code.maxLength < length
    ∧ written = .error (.outOfRange .codeLength length)

namespace Rewritten

variable {fits others : Prop} {used more : Bytes} {notices behind : List Notice}
  {written second : Except Error Bytes}

theorem exact (h : written = .ok used) (hquiet : Quiet notices) :
    Rewritten True used notices written where
  of_fits _ := ⟨used, h, Nat.le_refl _, iff_of_true rfl hquiet⟩
  of_not_fits hnot := absurd trivial hnot

theorem congr (h : Rewritten fits used notices written) (hiff : others ↔ fits) :
    Rewritten others used notices written where
  of_fits hothers := h.of_fits (hiff.mp hothers)
  of_not_fits hnot := h.of_not_fits fun hfits => hnot (hiff.mpr hfits)

/-- Only what notices tell of what was left out counts. -/
theorem congr_quiet (h : Rewritten fits used notices written)
    (hiff : Quiet behind ↔ Quiet notices) : Rewritten fits used behind written where
  of_fits hfits := by
    obtain ⟨bytes, hbytes, hle, hquiet⟩ := h.of_fits hfits
    exact ⟨bytes, hbytes, hle, hquiet.trans hiff.symm⟩
  of_not_fits := h.of_not_fits

/-- Nothing gets longer, so bytes come back exactly if each part does. -/
theorem append (h : Rewritten fits used notices written)
    (hsecond : Rewritten others more behind second) :
    Rewritten (fits ∧ others) (used ++ more) (notices ++ behind)
      (appendWritten written second) where
  of_fits := by
    rintro ⟨hfits, hothers⟩
    obtain ⟨bytes, rfl, hle, hiff⟩ := h.of_fits hfits
    obtain ⟨rest, rfl, hrest, hrestiff⟩ := hsecond.of_fits hothers
    refine ⟨bytes ++ rest, rfl, ?_, ?_⟩
    · rw [List.length_append, List.length_append]
      omega
    · rw [quiet_append, ← hiff, ← hrestiff]
      constructor
      · intro heq
        -- No part got longer, so if all bytes are the same, each part is as long as it was.
        have hlength := congrArg List.length heq
        rw [List.length_append, List.length_append] at hlength
        exact List.append_inj heq (by omega)
      · rintro ⟨rfl, rfl⟩
        rfl
  of_not_fits := by
    intro hnot
    -- The first part that does not fit is the one that is refused.
    by_cases hfits : fits
    · obtain ⟨bytes, rfl, -⟩ := h.of_fits hfits
      obtain ⟨length, hlong, rfl⟩ := hsecond.of_not_fits fun hothers => hnot ⟨hfits, hothers⟩
      exact ⟨length, hlong, rfl⟩
    · obtain ⟨length, hlong, rfl⟩ := h.of_not_fits hfits
      exact ⟨length, hlong, rfl⟩

/-- Whatever is too long is refused before anything else. -/
theorem guard (h : Rewritten fits used notices written) (length : Nat) :
    Rewritten (length ≤ Code.maxLength ∧ fits) used notices
      (if Code.maxLength < length then .error (.outOfRange .codeLength length) else written) where
  of_fits := by
    rintro ⟨hle, hfits⟩
    rw [if_neg (Nat.not_lt.mpr hle)]
    exact h.of_fits hfits
  of_not_fits := by
    intro hnot
    by_cases hlong : Code.maxLength < length
    · rw [if_pos hlong]
      exact ⟨length, hlong, rfl⟩
    · rw [if_neg hlong]
      exact h.of_not_fits fun hfits => hnot ⟨Nat.not_lt.mp hlong, hfits⟩

end Rewritten

namespace Reader

variable {α β γ δ : Type} {reader : Reader α} {good fits : α → Prop}
  {write : α → Except Error Bytes}

/-! ## Exact readers -/

/-- A reader takes exactly the good values off the bytes they are written as. -/
structure Takes (reader : Reader α) (good : α → Prop) (write : α → Except Error Bytes) :
    Prop where
  iff : ∀ {input : Bytes} {value : α} {rest : Bytes} {notices : List Notice},
    reader.Reads input value rest notices
      ↔ notices = [] ∧ good value ∧ ∃ used, write value = .ok used ∧ input = used ++ rest

/-- A good value is read off its writing, whatever stands behind it. -/
theorem Takes.reads_append (h : reader.Takes good write) {value : α} {written : Bytes}
    (hgood : good value) (hwrite : write value = .ok written) (rest : Bytes) :
    reader.Reads (written ++ rest) value rest [] :=
  h.iff.mpr ⟨rfl, hgood, written, hwrite, rfl⟩

/-- What is read and written without fail. -/
theorem takes_of_reads_iff {encode : α → Bytes} (h : ∀ {input value rest notices},
    reader.Reads input value rest notices ↔ input = encode value ++ rest ∧ notices = []) :
    reader.Takes (fun _ => True) (fun value => .ok (encode value)) := by
  constructor
  intro input value rest notices
  rw [h]
  constructor
  · rintro ⟨rfl, rfl⟩
    exact ⟨rfl, trivial, _, rfl, rfl⟩
  · rintro ⟨rfl, -, _, heq, rfl⟩
    cases heq
    exact ⟨rfl, rfl⟩

theorem takes_u16 : u16.Takes (fun _ => True) (fun n => .ok (BigEndian.u16 n)) :=
  takes_of_reads_iff reads_u16

theorem takes_flags (carrier : FlagCarrier) :
    (AccessFlags.read : Reader (AccessFlags carrier)).Takes (fun _ => True)
      (fun flags => .ok flags.encode) := by
  refine takes_of_reads_iff fun {input flags rest notices} => ?_
  rw [AccessFlags.read, reads_map]
  constructor
  · rintro ⟨bits, hbits, rfl⟩
    exact reads_u16.mp hbits
  · intro hflags
    exact ⟨flags.bits, reads_u16.mpr hflags, rfl⟩

/-- A number that is at hand as a natural number. -/
theorem takes_toNat (what : Quantity) : (UInt16.toNat <$> u16).Takes (fun _ => True)
    (fun n => BigEndian.u16 <$> narrow16 what n) := by
  constructor
  intro input value rest notices
  simp only [reads_map, reads_u16, map_eq_ok_iff, narrow16_eq_ok_iff]
  constructor
  · rintro ⟨count, ⟨rfl, rfl⟩, rfl⟩
    exact ⟨rfl, trivial, _, ⟨count, ⟨count.toNat_lt, UInt16.ofNat_toNat.symm⟩, rfl⟩, rfl⟩
  · rintro ⟨rfl, -, _, ⟨_, ⟨hlt, rfl⟩, rfl⟩, rfl⟩
    exact ⟨UInt16.ofNat value, ⟨rfl, rfl⟩, (UInt16.toNat_ofNat_of_lt' hlt).symm⟩

/-- The number of elements of a short sequence. -/
theorem takes_shortCount (what : Quantity) : (UInt8.toNat <$> u8).Takes (fun _ => True)
    (fun n => BigEndian.u8 <$> narrow8 what n) := by
  constructor
  intro input value rest notices
  simp only [reads_map, reads_u8, map_eq_ok_iff, narrow8_eq_ok_iff]
  constructor
  · rintro ⟨count, ⟨rfl, rfl⟩, rfl⟩
    exact ⟨rfl, trivial, _, ⟨count, ⟨count.toNat_lt, UInt8.ofNat_toNat.symm⟩, rfl⟩, rfl⟩
  · rintro ⟨rfl, -, _, ⟨_, ⟨hlt, rfl⟩, rfl⟩, rfl⟩
    exact ⟨UInt8.ofNat value, ⟨rfl, rfl⟩, (UInt8.toNat_ofNat_of_lt' hlt).symm⟩

theorem ofExcept_map (f : α → β) (result : Except Error α) :
    ofExcept (f <$> result) = f <$> ofExcept result := by
  cases result <;> rfl

/-- What stands for a value in another type is taken as the value is. -/
theorem Takes.map (h : reader.Takes good write) {f : α → β} (g : β → α)
    (hleft : ∀ value, g (f value) = value) (hright : ∀ value, f (g value) = value) :
    (f <$> reader).Takes (fun value => good (g value)) (fun value => write (g value)) := by
  constructor
  intro input value rest notices
  rw [reads_map]
  constructor
  · rintro ⟨inner, hinner, rfl⟩
    simp only [hleft]
    exact h.iff.mp hinner
  · intro htaken
    exact ⟨g value, h.iff.mpr htaken, (hright value).symm⟩

/-! ## The two directions -/

/-- What becomes of a value that was read when it is written. -/
structure Rewrites (reader : Reader α) (good fits : α → Prop) (write : α → Except Error Bytes) :
    Prop where
  rewritten : ∀ {input : Bytes} {value : α} {rest : Bytes} {notices : List Notice},
    reader.Reads input value rest notices → good value
      ∧ ∃ used, input = used ++ rest ∧ Rewritten (fits value) used notices (write value)

/-- A good value that was written is read as what it becomes, whatever follows. -/
structure Rereads (reader : Reader β) (good : α → Prop) (write : α → Except Error Bytes)
    (become : α → β) : Prop where
  reads : ∀ (value : α) {written : Bytes}, good value → write value = .ok written →
    ∃ notices, Quiet notices ∧ ∀ rest, reader.Reads (written ++ rest) (become value) rest notices

/-- A reader that takes exactly what is written gives back bytes that are written the same. -/
theorem Takes.rewrites (h : reader.Takes good write) :
    reader.Rewrites good (fun _ => True) write := by
  constructor
  intro input value rest notices hreads
  obtain ⟨rfl, hgood, used, hwrite, rfl⟩ := h.iff.mp hreads
  exact ⟨hgood, used, rfl, .exact hwrite quiet_nil⟩

/-- What is written as the value it becomes is read as that value. -/
theorem Takes.rereads {become : β → α} {goodBefore : β → Prop}
    {writeBefore : β → Except Error Bytes} (h : reader.Takes good write)
    (hbecome : ∀ value written, goodBefore value → writeBefore value = .ok written →
      good (become value) ∧ write (become value) = .ok written) :
    reader.Rereads goodBefore writeBefore become := by
  constructor
  intro value written hgood hwrite
  obtain ⟨hgood, hwrite⟩ := hbecome value written hgood hwrite
  exact ⟨[], quiet_nil, fun rest => h.iff.mpr ⟨rfl, hgood, written, hwrite, rfl⟩⟩

/-- What does not depend on a pool is read as it was written. -/
theorem Takes.rereads_self (h : reader.Takes good write) :
    reader.Rereads good write (fun value => value) :=
  h.rereads fun _ _ hgood hwrite => ⟨hgood, hwrite⟩

/-! ### Pairs -/

/-- Two parts, one after the other. -/
def pair (first : Reader α) (second : Reader β) : Reader (α × β) := do
  let value ← first
  let other ← second
  return (value, other)

/-- A pair is read part by part, with the notices of the first part in front. -/
theorem reads_pair {first : Reader α} {second : Reader β} {value : α} {other : β}
    {input rest : Bytes} {notices : List Notice} :
    (pair first second).Reads input (value, other) rest notices
      ↔ ∃ middle before behind, first.Reads input value middle before
        ∧ second.Reads middle other rest behind ∧ notices = before ++ behind := by
  simp only [pair, reads_bind, reads_pure]
  constructor
  · rintro ⟨_, middle, before, _, hfirst, ⟨_, _, behind, _, hsecond, ⟨heq, rfl, rfl⟩, rfl⟩, rfl⟩
    cases heq
    exact ⟨middle, before, behind, hfirst, hsecond, by rw [List.append_nil]⟩
  · rintro ⟨middle, before, behind, hfirst, hsecond, rfl⟩
    exact ⟨value, middle, before, behind, hfirst,
      ⟨other, rest, behind, [], hsecond, ⟨rfl, rfl, rfl⟩, (List.append_nil _).symm⟩, rfl⟩

/-- Exact readers of two parts make an exact reader of the pair. -/
theorem Takes.pair {second : Reader β} {goodSecond : β → Prop}
    {writeSecond : β → Except Error Bytes}
    (h : reader.Takes good write) (hsecond : second.Takes goodSecond writeSecond) :
    (reader.pair second).Takes (fun values => good values.1 ∧ goodSecond values.2)
      (fun values => appendWritten (write values.1) (writeSecond values.2)) := by
  constructor
  rintro input ⟨value, other⟩ rest notices
  rw [reads_pair]
  constructor
  · rintro ⟨middle, before, behind, hfirst, hother, rfl⟩
    obtain ⟨rfl, hgood, used, hused, rfl⟩ := h.iff.mp hfirst
    obtain ⟨rfl, hgoodOther, more, hmore, rfl⟩ := hsecond.iff.mp hother
    exact ⟨rfl, ⟨hgood, hgoodOther⟩, used ++ more,
      appendWritten_eq_ok_iff.mpr ⟨used, more, hused, hmore, rfl⟩, (List.append_assoc ..).symm⟩
  · rintro ⟨rfl, ⟨hgood, hgoodOther⟩, written, hwritten, rfl⟩
    obtain ⟨used, more, hused, hmore, rfl⟩ := appendWritten_eq_ok_iff.mp hwritten
    refine ⟨more ++ rest, [], [], h.iff.mpr ⟨rfl, hgood, used, hused, ?_⟩,
      hsecond.iff.mpr ⟨rfl, hgoodOther, more, hmore, rfl⟩, rfl⟩
    exact List.append_assoc ..

/-- Two parts that are written as they were read make a pair that is. -/
theorem Rewrites.pair {second : Reader β} {goodSecond fitsSecond : β → Prop}
    {writeSecond : β → Except Error Bytes} (h : reader.Rewrites good fits write)
    (hsecond : second.Rewrites goodSecond fitsSecond writeSecond) :
    (reader.pair second).Rewrites (fun values => good values.1 ∧ goodSecond values.2)
      (fun values => fits values.1 ∧ fitsSecond values.2)
      (fun values => appendWritten (write values.1) (writeSecond values.2)) := by
  constructor
  rintro input ⟨value, other⟩ rest notices hreads
  obtain ⟨middle, before, behind, hfirst, hother, rfl⟩ := reads_pair.mp hreads
  obtain ⟨hgood, used, rfl, hused⟩ := h.rewritten hfirst
  obtain ⟨hgoodOther, more, rfl, hmore⟩ := hsecond.rewritten hother
  exact ⟨⟨hgood, hgoodOther⟩, used ++ more, (List.append_assoc ..).symm, hused.append hmore⟩

/-- Two parts that come back make a pair that comes back. -/
theorem Rereads.pair {first : Reader γ} {second : Reader δ} {goodSecond : β → Prop}
    {writeSecond : β → Except Error Bytes} {become : α → γ} {becomeSecond : β → δ}
    (h : first.Rereads good write become)
    (hsecond : second.Rereads goodSecond writeSecond becomeSecond) :
    (first.pair second).Rereads (fun values : α × β => good values.1 ∧ goodSecond values.2)
      (fun values => appendWritten (write values.1) (writeSecond values.2))
      (fun values => (become values.1, becomeSecond values.2)) := by
  constructor
  rintro ⟨value, other⟩ written ⟨hgood, hgoodOther⟩ hwrite
  obtain ⟨used, more, hused, hmore, rfl⟩ := appendWritten_eq_ok_iff.mp hwrite
  obtain ⟨before, hbefore, hfirst⟩ := h.reads value hgood hused
  obtain ⟨behind, hbehind, hother⟩ := hsecond.reads other hgoodOther hmore
  refine ⟨before ++ behind, quiet_append.mpr ⟨hbefore, hbehind⟩, fun rest => ?_⟩
  rw [List.append_assoc]
  exact reads_pair.mpr ⟨more ++ rest, before, behind, hfirst _, hother rest, rfl⟩

/-! ### What is made of a value -/

/-- What is made of a value is read off the bytes that the value is written as. -/
theorem Takes.reads_map (h : reader.Takes good write) {f : α → β} {input : Bytes} {made : β}
    {rest : Bytes} {notices : List Notice} : (f <$> reader).Reads input made rest notices
      ↔ notices = [] ∧ ∃ value, made = f value ∧ good value
        ∧ ∃ used, write value = .ok used ∧ input = used ++ rest := by
  rw [Reader.reads_map]
  constructor
  · rintro ⟨value, hvalue, rfl⟩
    obtain ⟨rfl, hgood, hused⟩ := h.iff.mp hvalue
    exact ⟨rfl, value, rfl, hgood, hused⟩
  · rintro ⟨rfl, value, rfl, hgood, hused⟩
    exact ⟨value, h.iff.mpr ⟨rfl, hgood, hused⟩, rfl⟩

theorem Rewrites.congr {goodOther fitsOther : α → Prop} {writeOther : α → Except Error Bytes}
    (h : reader.Rewrites good fits write) (hgood : ∀ value, good value → goodOther value)
    (hfits : ∀ value, fitsOther value ↔ fits value)
    (hwrite : ∀ value, writeOther value = write value) :
    reader.Rewrites goodOther fitsOther writeOther := by
  constructor
  intro input value rest notices hreads
  obtain ⟨hvalue, used, rfl, hused⟩ := h.rewritten hreads
  refine ⟨hgood value hvalue, used, rfl, ?_⟩
  rw [hwrite]
  exact hused.congr (hfits value)

theorem Rewrites.map {f : α → β} {goodMade fitsMade : β → Prop}
    {writeMade : β → Except Error Bytes} (h : reader.Rewrites good fits write)
    (hgood : ∀ value, good value → goodMade (f value))
    (hfits : ∀ value, fitsMade (f value) ↔ fits value)
    (hwrite : ∀ value, writeMade (f value) = write value) :
    (f <$> reader).Rewrites goodMade fitsMade writeMade := by
  constructor
  intro input value rest notices hreads
  obtain ⟨inner, hinner, rfl⟩ := reads_map.mp hreads
  obtain ⟨hinnerGood, used, rfl, hused⟩ := h.rewritten hinner
  refine ⟨hgood inner hinnerGood, used, rfl, ?_⟩
  rw [hwrite]
  exact hused.congr (hfits inner)

/-- What is made of a value that is read again. -/
theorem Rereads.reads_map {again : Reader β} {become : α → β} (h : again.Rereads good write become)
    {make : β → γ} {made : γ} {value : α} {written : Bytes} (hgood : good value)
    (hwrite : write value = .ok written) (hmade : made = make (become value)) :
    ∃ notices, Quiet notices
      ∧ ∀ rest, (make <$> again).Reads (written ++ rest) made rest notices := by
  obtain ⟨notices, hquiet, hreads⟩ := h.reads value hgood hwrite
  exact ⟨notices, hquiet, fun rest => Reader.reads_map.mpr ⟨_, hreads rest, hmade⟩⟩

/-- A part of a value that says all about it is read again as that part of what it becomes. -/
theorem Rereads.map {made : Reader β} {become : α → β} (h : made.Rereads good write become)
    {goodWhole : γ → Prop} {writeWhole : γ → Except Error Bytes} {becomeWhole : γ → δ}
    (make : β → δ) (part : γ → α) (hgood : ∀ value, goodWhole value → good (part value))
    (hwrite : ∀ value, writeWhole value = write (part value))
    (hbecome : ∀ value, goodWhole value → becomeWhole value = make (become (part value))) :
    (make <$> made).Rereads goodWhole writeWhole becomeWhole := by
  constructor
  intro value written hgoodValue hwritten
  rw [hwrite] at hwritten
  exact h.reads_map (hgood value hgoodValue) hwritten (hbecome value hgoodValue)

/-! ### Sequences -/

/-- A sequence is its count, and then that many elements. -/
theorem sequence_eq (reader : Reader α) :
    sequence reader = (UInt16.toNat <$> u16) >>= fun count => many count reader := by
  rw [bind_map_left]
  rfl

theorem shortSequence_eq (reader : Reader α) :
    shortSequence reader = (UInt8.toNat <$> u8) >>= fun count => many count reader := by
  rw [bind_map_left]
  rfl

namespace Takes

theorem many (h : reader.Takes good write) (count : Nat) :
    (Reader.many count reader).Takes
      (fun values => values.length = count ∧ ∀ value ∈ values, good value) (encodeAll write) := by
  constructor
  intro input values rest notices
  induction count generalizing input values notices with
  | zero =>
    rw [reads_many_zero, List.length_eq_zero_iff]
    constructor
    · rintro ⟨rfl, rfl, rfl⟩
      exact ⟨rfl, ⟨rfl, by simp⟩, [], encodeAll_nil, rfl⟩
    · rintro ⟨rfl, ⟨rfl, -⟩, used, hused, rfl⟩
      rw [encodeAll_nil] at hused
      cases hused
      exact ⟨rfl, rfl, rfl⟩
  | succ count ih =>
    rw [reads_many_succ]
    constructor
    · rintro ⟨first, others, middle, before, behind, rfl, hfirst, hothers, rfl⟩
      obtain ⟨rfl, hgood, used, hused, rfl⟩ := h.iff.mp hfirst
      obtain ⟨rfl, ⟨hlength, hall⟩, more, hmore, rfl⟩ := ih.mp hothers
      refine ⟨rfl, ⟨congrArg (· + 1) hlength, List.forall_mem_cons.mpr ⟨hgood, hall⟩⟩,
        used ++ more, ?_, (List.append_assoc ..).symm⟩
      rw [encodeAll_cons]
      exact appendWritten_eq_ok_iff.mpr ⟨used, more, hused, hmore, rfl⟩
    · rintro ⟨rfl, ⟨hlength, hall⟩, written, hwritten, rfl⟩
      obtain ⟨first, others, rfl⟩ := List.exists_cons_of_length_eq_add_one hlength
      rw [List.forall_mem_cons] at hall
      rw [encodeAll_cons, appendWritten_eq_ok_iff] at hwritten
      obtain ⟨used, more, hused, hmore, rfl⟩ := hwritten
      refine ⟨first, others, more ++ rest, [], [], rfl, h.iff.mpr ⟨rfl, hall.1, used, hused, ?_⟩,
        ih.mpr ⟨rfl, ⟨Nat.succ_inj.mp hlength, hall.2⟩, more, hmore, rfl⟩, rfl⟩
      exact List.append_assoc ..

/-- A list behind its length is taken if the length and the elements are. -/
theorem counted (h : reader.Takes good write) {readCount : Reader Nat}
    {writeCount : Nat → Except Error Bytes} (hcount : readCount.Takes (fun _ => True) writeCount) :
    (readCount >>= fun count => Reader.many count reader).Takes
      (fun values => ∀ value ∈ values, good value)
      (fun values => appendWritten (writeCount values.length) (encodeAll write values)) := by
  constructor
  intro input values rest notices
  rw [reads_bind]
  constructor
  · rintro ⟨count, middle, before, behind, hfirst, hmany, rfl⟩
    obtain ⟨rfl, -, used, hused, rfl⟩ := hcount.iff.mp hfirst
    obtain ⟨rfl, ⟨rfl, hall⟩, more, hmore, rfl⟩ := (h.many count).iff.mp hmany
    exact ⟨rfl, hall, used ++ more, appendWritten_eq_ok_iff.mpr ⟨used, more, hused, hmore, rfl⟩,
      (List.append_assoc ..).symm⟩
  · rintro ⟨rfl, hall, written, hwritten, rfl⟩
    obtain ⟨used, more, hused, hmore, rfl⟩ := appendWritten_eq_ok_iff.mp hwritten
    refine ⟨values.length, more ++ rest, [], [], hcount.iff.mpr ⟨rfl, trivial, used, hused, ?_⟩,
      (h.many values.length).iff.mpr ⟨rfl, ⟨rfl, hall⟩, more, hmore, rfl⟩, rfl⟩
    exact List.append_assoc ..

theorem sequence (h : reader.Takes good write) (what : Quantity) :
    (Reader.sequence reader).Takes (fun values => ∀ value ∈ values, good value)
      (encodeCounted what write) := by
  rw [sequence_eq]
  exact h.counted (takes_toNat what)

end Takes

namespace Rewrites

theorem many (h : reader.Rewrites good fits write) (count : Nat) :
    (Reader.many count reader).Rewrites
      (fun values => values.length = count ∧ ∀ value ∈ values, good value)
      (fun values => ∀ value ∈ values, fits value) (encodeAll write) := by
  constructor
  intro input values rest notices hreads
  induction count generalizing input values notices with
  | zero =>
    obtain ⟨rfl, rfl, rfl⟩ := reads_many_zero.mp hreads
    exact ⟨⟨rfl, by simp⟩, [], rfl, (Rewritten.exact rfl quiet_nil).congr (by simp)⟩
  | succ count ih =>
    obtain ⟨first, others, middle, _, _, rfl, hfirst, hothers, rfl⟩ := reads_many_succ.mp hreads
    obtain ⟨hgood, used, rfl, hused⟩ := h.rewritten hfirst
    obtain ⟨⟨rfl, hall⟩, more, rfl, hmore⟩ := ih hothers
    refine ⟨⟨rfl, List.forall_mem_cons.mpr ⟨hgood, hall⟩⟩, used ++ more,
      (List.append_assoc ..).symm, ?_⟩
    rw [encodeAll_cons]
    exact (hused.append hmore).congr List.forall_mem_cons

/-- A list behind its length is written back if the length and the elements are. -/
theorem counted (h : reader.Rewrites good fits write) {readCount : Reader Nat}
    {writeCount : Nat → Except Error Bytes} (hcount : readCount.Takes (fun _ => True) writeCount) :
    (readCount >>= fun count => Reader.many count reader).Rewrites
      (fun values => ∀ value ∈ values, good value) (fun values => ∀ value ∈ values, fits value)
      (fun values => appendWritten (writeCount values.length) (encodeAll write values)) := by
  constructor
  intro input values rest notices hreads
  obtain ⟨count, middle, _, _, hfirst, hmany, rfl⟩ := reads_bind.mp hreads
  obtain ⟨-, used, rfl, hused⟩ := hcount.rewrites.rewritten hfirst
  obtain ⟨⟨rfl, hall⟩, more, rfl, hmore⟩ := (h.many count).rewritten hmany
  exact ⟨hall, used ++ more, (List.append_assoc ..).symm,
    (hused.append hmore).congr (by rw [true_and])⟩

theorem sequence (h : reader.Rewrites good fits write) (what : Quantity) :
    (Reader.sequence reader).Rewrites (fun values => ∀ value ∈ values, good value)
      (fun values => ∀ value ∈ values, fits value) (encodeCounted what write) := by
  rw [sequence_eq]
  exact h.counted (takes_toNat what)

theorem shortSequence (h : reader.Rewrites good fits write) (what : Quantity) :
    (Reader.shortSequence reader).Rewrites (fun values => ∀ value ∈ values, good value)
      (fun values => ∀ value ∈ values, fits value) (encodeShortSequence what write) := by
  rw [shortSequence_eq, encodeShortSequence_eq]
  exact h.counted (takes_shortCount what)

end Rewrites

namespace Rereads

variable {again : Reader β} {become : α → β}

theorem many (h : again.Rereads good write become) {values : List α} {written : Bytes}
    (hgood : ∀ value ∈ values, good value) (hwrite : encodeAll write values = .ok written) :
    ∃ notices, Quiet notices ∧ ∀ rest,
      (Reader.many values.length again).Reads (written ++ rest) (values.map become) rest
        notices := by
  induction values generalizing written with
  | nil =>
    cases hwrite
    exact ⟨[], quiet_nil, fun rest => reads_many_zero.mpr ⟨rfl, rfl, rfl⟩⟩
  | cons value values ih =>
    rw [List.forall_mem_cons] at hgood
    rw [encodeAll_cons, appendWritten_eq_ok_iff] at hwrite
    obtain ⟨used, more, hused, hmore, rfl⟩ := hwrite
    obtain ⟨before, hbefore, hfirst⟩ := h.reads value hgood.1 hused
    obtain ⟨behind, hbehind, hothers⟩ := ih hgood.2 hmore
    refine ⟨before ++ behind, quiet_append.mpr ⟨hbefore, hbehind⟩, fun rest => ?_⟩
    rw [List.append_assoc]
    exact reads_many_succ.mpr ⟨become value, values.map become, more ++ rest, before, behind, rfl,
      hfirst _, hothers rest, rfl⟩

/-- A list behind its length is read again if the length and the elements are. -/
theorem counted (h : again.Rereads good write become) {readCount : Reader Nat}
    {writeCount : Nat → Except Error Bytes} (hcount : readCount.Takes (fun _ => True) writeCount) :
    (readCount >>= fun count => Reader.many count again).Rereads
      (fun values => ∀ value ∈ values, good value)
      (fun values => appendWritten (writeCount values.length) (encodeAll write values))
      (List.map become) := by
  constructor
  intro values written hgood hwrite
  obtain ⟨used, more, hused, hmore, rfl⟩ := appendWritten_eq_ok_iff.mp hwrite
  obtain ⟨before, hbefore, hfirst⟩ := hcount.rereads_self.reads values.length trivial hused
  obtain ⟨behind, hbehind, hmany⟩ := h.many hgood hmore
  refine ⟨before ++ behind, quiet_append.mpr ⟨hbefore, hbehind⟩, fun rest => ?_⟩
  rw [List.append_assoc]
  exact reads_bind.mpr
    ⟨values.length, more ++ rest, before, behind, hfirst _, hmany rest, rfl⟩

theorem sequence (h : again.Rereads good write become) (what : Quantity) :
    (Reader.sequence again).Rereads (fun values => ∀ value ∈ values, good value)
      (encodeCounted what write) (List.map become) := by
  rw [sequence_eq]
  exact h.counted (takes_toNat what)

theorem shortSequence (h : again.Rereads good write become) (what : Quantity) :
    (Reader.shortSequence again).Rereads (fun values => ∀ value ∈ values, good value)
      (encodeShortSequence what write) (List.map become) := by
  rw [shortSequence_eq, encodeShortSequence_eq]
  exact h.counted (takes_shortCount what)

end Rereads

end Reader

end ClassFormat
