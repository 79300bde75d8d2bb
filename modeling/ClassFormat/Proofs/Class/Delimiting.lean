import ClassFormat.Proofs.Attribute.Delimiting
import ClassFormat.Proofs.Class.Rewriting
/-!
# Class files find their own end

The pool comes first, and its first pass is the same whichever pool is made of it. What is made of
the same bytes under another tag mirrors the pool, so everything behind it goes on alike
(`Pool.delimits_read`).

From this follows that the format is self-delimiting. With bytes behind a class the class is read as
before, and the bytes are refused; with bytes missing, the input ends too soon, wherever it is cut.
-/

namespace ClassFormat

/-! ## The pool -/

/-- The length tells where a text ends. -/
theorem RawConstant.delimits_readText (index : UInt16) :
    (readText index).Delimits (· = ·) (readText index) := by
  refine .bind .u16 ?_
  rintro length _ rfl
  refine .bind (.block _) ?_
  rintro bytes _ rfl
  split
  · exact .fail _
  · split
    · exact .pure rfl
    · refine .bind (.note _ _) fun _ _ _ => ?_
      exact .pure rfl

/-- A pair has a fixed length. -/
theorem RawConstant.delimits_readPair (make : UInt16 → UInt16 → RawConstant) :
    (readPair make).Delimits (· = ·) (readPair make) := by
  refine .bind .u16 ?_
  rintro first _ rfl
  refine .bind .u16 ?_
  rintro second _ rfl
  exact .pure rfl

/-- The tag tells how a constant goes on. -/
theorem RawConstant.delimits_read (index : UInt16) :
    (RawConstant.read index).Delimits (· = ·) (RawConstant.read index) := by
  have hindex (make : UInt16 → RawConstant) :
      (make <$> Reader.u16).Delimits (· = ·) (make <$> Reader.u16) :=
    .map .u16 fun _ _ => congrArg make
  refine .bind .u8 ?_
  rintro tag _ rfl
  split
  · exact delimits_readText index
  · exact .map (.map .i32 fun _ _ => congrArg _) fun _ _ => congrArg _
  · exact .map (.map .u32 fun _ _ => congrArg _) fun _ _ => congrArg _
  · exact .map (.map .i64 fun _ _ => congrArg _) fun _ _ => congrArg _
  · exact .map (.map .u64 fun _ _ => congrArg _) fun _ _ => congrArg _
  case h_12 =>
    -- The kind of a method handle is judged before the index behind it is read.
    refine .bind .u8 ?_
    rintro number _ rfl
    have hkind : (Reader.ofExcept (HandleKind.ofNumber number)).Delimits (· = ·)
        (Reader.ofExcept (HandleKind.ofNumber number)) :=
      .ofExcept fun kind hkind => ⟨kind, hkind, rfl⟩
    refine .bind hkind ?_
    rintro kind _ rfl
    exact hindex (methodHandle kind)
  all_goals first
    | exact delimits_readPair _
    | exact hindex _
    | exact .fail _

/-- The first pass is the same for every pool. -/
theorem RawPool.delimits_read : RawPool.read.Delimits (· = ·) RawPool.read := by
  refine .bind .u16 ?_
  rintro count _ rfl
  have hstep (raw : RawPool) : raw.step.Delimits (· = ·) raw.step := by
    refine .bind (RawConstant.delimits_read _) ?_
    rintro constant _ rfl
    exact .pure rfl
  refine .bind (.loop hstep _ _) ?_
  rintro raw _ rfl
  split
  · exact .pure rfl
  · exact .fail _

/-- The same bytes are read as a pool under any tag, and those pools mirror one another. -/
theorem Pool.delimits_read (tag other : PoolTag) :
    (Pool.read tag).Delimits
      (fun pool again => ∃ indices later, again.Mirrors indices later pool) (Pool.read other) := by
  refine ⟨fun {input pool rest notices} hread => ?_⟩
  obtain ⟨-, hsound, used, indices, rfl, hlaid, hencode⟩ := rewrites_read hread
  obtain ⟨again, later, left, hmirrors, -, hagain⟩ :=
    exists_reread hlaid.valid hsound hencode other
  refine ⟨used, again, left, rfl, ⟨indices, later, hmirrors⟩, hagain, ?_⟩
  -- The second pass takes nothing off the input, so what is missing is missing from the first.
  obtain ⟨raw, middle, _, _, hraw, hsecond, -⟩ := Reader.reads_bind.mp hread
  obtain ⟨_, _, _, _, hresolve, hlast, -⟩ := Reader.reads_bind.mp hsecond
  obtain ⟨_, rfl, -⟩ := Reader.reads_ofExcept.mp hresolve
  obtain ⟨_, _, _, _, hnote, hpure, -⟩ := Reader.reads_bind.mp hlast
  obtain ⟨rfl, -⟩ := Reader.reads_note.mp hnote
  obtain ⟨-, rfl, -⟩ := Reader.reads_pure.mp hpure
  obtain ⟨taken, _, _, hinput, -, -, hshort⟩ := RawPool.delimits_read.exists_used hraw
  obtain rfl := List.append_cancel_right hinput
  exact fun start missing hused hne => (hshort start missing hused hne).bind _

/-! ## The class -/

/-- A class is read as one whose name stands at the same index. -/
theorem Constant.ReadAs.exists_classInfo {indices later : Indices} {name : Utf8Id}
    {other : Constant} (h : (Constant.classInfo name).ReadAs indices later other) :
    ∃ found index, other = .classInfo found ∧ indices.indexOf name.id = .ok index
      ∧ later.indexOf found.id = .ok index := by
  obtain ⟨raw, lookup, hraw, hother, hagain⟩ := h.exists_raw
  obtain ⟨index, hindex, rfl⟩ := map_eq_ok_iff.mp hraw
  obtain ⟨found, -, rfl⟩ := map_eq_ok_iff.mp hother
  obtain ⟨_, hfound, heq⟩ := map_eq_ok_iff.mp hagain
  cases heq
  exact ⟨found, index, rfl, hindex, hfound⟩

/-- A class that has a name in one pool has one in the other. -/
theorem Pool.Mirrors.exists_className {pool again : Pool} {indices later : Indices}
    (h : again.Mirrors indices later pool) {id other : ClassId}
    (hpaired : again.Paired indices id.id other.id) {text : String}
    (hname : pool.className id = .ok text) : again.className other = .ok text := by
  obtain ⟨⟨index, hindex⟩, hother⟩ := hpaired
  obtain ⟨-, constant, read, hconstant, hread, hreadAs⟩ := h.exists_counterpart hindex
  rw [Pool.className, hconstant] at hname
  cases constant with
  | classInfo name =>
    obtain ⟨found, place, rfl, hplace, hfound⟩ := hreadAs.exists_classInfo
    have hpaired : again.Paired indices name.id found.id := by
      refine ⟨⟨place, hplace⟩, ?_⟩
      have hsame := h.after.idAt_iff.mpr hfound
      rw [(h.exists_counterpart hplace).1] at hsame
      exact (Except.ok.inj hsame).symm
    rw [Pool.className, hother, hread]
    exact h.exists_text hpaired hname
  | _ => cases hname

namespace ClassFile

/-- A class that has a name has one in the other reading, too. -/
def NamedAlike (file other : ClassFile) : Prop :=
  ∀ name, file.name = .ok name → other.name = .ok name

/-- Each part of a class tells where it ends, whatever the tag of its pool is. -/
theorem delimits_readContents (tag other : PoolTag) :
    (readContents tag).Delimits NamedAlike (readContents other) := by
  have hversion : Version.read.Delimits (fun _ _ => True) Version.read := by
    refine .bind .u16 fun _ _ _ => ?_
    refine .bind .u16 fun _ _ _ => ?_
    exact .pure trivial
  refine .bind hversion fun _ _ _ => ?_
  refine .bind (Pool.delimits_read tag other) fun pool again ⟨indices, later, h⟩ => ?_
  refine .bind (delimits_flags .ofClass) fun _ _ _ => ?_
  refine .bind h.delimits_readClass fun thisClass otherClass hclass => ?_
  refine .bind h.delimits_readOptionalClass fun _ _ _ => ?_
  refine .bind h.delimits_readClass.sequence fun _ _ _ => ?_
  refine .bind (h.delimits_member .ofField).sequence fun _ _ _ => ?_
  refine .bind (h.delimits_member .ofMethod).sequence fun _ _ _ => ?_
  refine .bind h.delimits_attributes fun _ _ _ => ?_
  exact .pure fun name hname => h.exists_className hclass hname

/-- Telling of a class reads nothing, and fails for classes with the same name alike. -/
theorem delimits_announce (verbosity : Verbosity) {file other : ClassFile}
    (halike : file.NamedAlike other) :
    (announce verbosity file).Delimits (fun _ _ => True) (announce verbosity other) := by
  cases verbosity with
  | quiet => exact .pure trivial
  | verbose =>
    have hname : (Reader.ofExcept file.name).Delimits (· = ·) (Reader.ofExcept other.name) :=
      .ofExcept fun name hname => ⟨name, halike name hname, rfl⟩
    refine .bind hname fun _ _ _ => ?_
    exact (Reader.Delimits.note _ _).imp fun _ _ _ => trivial

/-- A class tells where it ends. -/
theorem delimits_read (tag other : PoolTag) (verbosity : Verbosity) :
    (read tag verbosity).Delimits (fun _ _ => True) (read other verbosity) := by
  refine .bind .u32 ?_
  rintro number _ rfl
  split
  · refine .bind (delimits_readContents tag other) fun file again halike => ?_
    refine .bind (delimits_announce verbosity halike) fun _ _ _ => ?_
    exact .pure trivial
  · exact .fail _

variable {tag : PoolTag} {verbosity : Verbosity} {bytes : Bytes} {file : ClassFile}
  {notices : List Notice}

/-- A class file is not the beginning of another one. -/
theorem eq_of_isPrefix {other : PoolTag} {longer : Bytes} {again : ClassFile} {noted : List Notice}
    (h : parse tag verbosity bytes = ⟨.ok file, notices⟩)
    (hlonger : parse other verbosity longer = ⟨.ok again, noted⟩) (hfront : bytes <+: longer) :
    bytes = longer := by
  obtain ⟨used, found, left, hused, -, hread, -⟩ :=
    (delimits_read tag other verbosity).exists_used (parse_eq_ok_iff.mp h)
  obtain rfl : bytes = used := hused.trans (List.append_nil used)
  obtain ⟨behind, rfl⟩ := hfront
  have hsame := (hread behind).symm.trans (parse_eq_ok_iff.mp hlonger)
  simp only [Reading.mk.injEq, Except.ok.injEq, Prod.mk.injEq] at hsame
  rw [hsame.1.2, List.append_nil]

/-- **The format is self-delimiting.** When some bytes are read as a class, the same bytes with
others behind them are refused for as many trailing bytes as there are, and whatever stops short of
them ends too soon; so no class file goes on as another one. This holds whichever tags the pools
get. -/
theorem parse_self_delimiting (h : parse tag verbosity bytes = ⟨.ok file, notices⟩)
    (other : PoolTag) :
    (∀ behind, behind ≠ [] →
        (parse other verbosity (bytes ++ behind)).value = .error (.trailingBytes behind.length))
      ∧ (∀ start missing, bytes = start ++ missing → missing ≠ [] →
        ∃ wanted, (parse other verbosity start).value = .error (.endOfInput wanted))
      ∧ ∀ longer again, bytes <+: longer → (parse other verbosity longer).value = .ok again →
        longer = bytes := by
  obtain ⟨used, found, left, hused, -, hread, hshort⟩ :=
    (delimits_read tag other verbosity).exists_used (parse_eq_ok_iff.mp h)
  obtain rfl : bytes = used := hused.trans (List.append_nil used)
  have htrailing : ∀ behind, behind ≠ [] →
      (parse other verbosity (bytes ++ behind)).value = .error (.trailingBytes behind.length) := by
    intro behind hne
    have hbehind : read other verbosity (bytes ++ behind) = ⟨.ok (found, behind), left⟩ :=
      hread behind
    obtain ⟨byte, others, rfl⟩ := List.exists_cons_of_ne_nil hne
    rw [parse, hbehind]
  refine ⟨htrailing, fun start missing hbytes hne => ?_, ?_⟩
  · obtain ⟨wanted, hfail⟩ := hshort start missing hbytes hne
    refine ⟨wanted, ?_⟩
    rcases hstart : read other verbosity start with ⟨outcome, noted⟩
    rw [hstart] at hfail
    obtain rfl : outcome = .error (.endOfInput wanted) := hfail
    rw [parse, hstart]
  · rintro longer again ⟨behind, rfl⟩ hlonger
    by_contra hne
    rw [htrailing behind fun hnil => hne (by rw [hnil, List.append_nil])] at hlonger
    cases hlonger

/-- A class that has a name and nothing else, with a byte too many and with one too few. -/
theorem parse_self_delimiting_named : ∃ (file : ClassFile) (notices : List Notice),
    parse ⟨0⟩ .quiet (BigEndian.u32 magic ++ Version.java8.encode
        ++ [0, 3, 1, 0, 1, 65, 7, 0, 1, 0, 0, 0, 2, 0, 0, 0, 0, 0, 0, 0, 0, 0, 0])
      = ⟨.ok file, notices⟩
    ∧ (parse ⟨1⟩ .quiet (BigEndian.u32 magic ++ Version.java8.encode
        ++ [0, 3, 1, 0, 1, 65, 7, 0, 1, 0, 0, 0, 2, 0, 0, 0, 0, 0, 0, 0, 0, 0, 0] ++ [7])).value
      = .error (.trailingBytes 1)
    ∧ ∃ wanted, (parse ⟨1⟩ .quiet (BigEndian.u32 magic ++ Version.java8.encode
        ++ [0, 3, 1, 0, 1, 65, 7, 0, 1, 0, 0, 0, 2, 0, 0, 0, 0, 0, 0, 0, 0, 0])).value
      = .error (.endOfInput wanted) := by
  have hpool : (Pool.read ⟨0⟩).Reads
      [0, 3, 1, 0, 1, 65, 7, 0, 1, 0, 0, 0, 2, 0, 0, 0, 0, 0, 0, 0, 0, 0, 0]
      (.ofRead ⟨0⟩ [.utf8 "A", .classInfo ⟨⟨⟨0⟩, 0⟩⟩])
      [0, 0, 0, 2, 0, 0, 0, 0, 0, 0, 0, 0, 0, 0] _ :=
    Pool.reads_read_iff.mpr ⟨_, _, Pool.resolves_named, rfl, rfl, rfl⟩
  have hparts : (readParts (.ofRead ⟨0⟩ [.utf8 "A", .classInfo ⟨⟨⟨0⟩, 0⟩⟩])).Reads
      [0, 0, 0, 2, 0, 0, 0, 0, 0, 0, 0, 0, 0, 0]
      (⟨0⟩, ⟨⟨⟨0⟩, 1⟩⟩, none, [], [], [], []) [] [] := rfl
  have hparse := parse_of_reads .java8 hpool hparts
  obtain ⟨htrailing, hmissing, -⟩ := parse_self_delimiting hparse ⟨1⟩
  exact ⟨_, _, hparse, htrailing [7] (by decide), hmissing _ [0] rfl (by decide)⟩

end ClassFile

end ClassFormat
