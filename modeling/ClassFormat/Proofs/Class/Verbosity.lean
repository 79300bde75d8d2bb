import ClassFormat.Class.Histogram
import ClassFormat.Proofs.Class.Rewriting
/-!
# What telling more changes

How much is to be told should not matter to what is answered. A class is read in the same way
whatever is told of it, and then announced (`ClassFile.read_eq_quiet`); methods are counted before
their class is named. But the announcement looks the name of the class up, and a name need not be a
string: a pool also keeps text whose surrogates do not pair up. So telling more changes the answer
for exactly the classes that are read, or counted, but have no name as a string.
-/

namespace ClassFormat

/-! ## Names of classes -/

namespace Pool

variable {pool : Pool} {id : ClassId}

/-- In a pool whose references lead where they have to, only one thing keeps a class from having a
name: the name is text whose surrogates do not pair up. -/
theorem Typed.className_cases (h : pool.Typed) (hclass : pool.Leads [.classInfo] id.id) :
    (∃ name, pool.className id = .ok name)
      ∨ ∃ name units, pool.constant id.id = .ok (.classInfo name)
        ∧ pool.constant name.id = .ok (.utf16 units)
        ∧ pool.className id = .error (.unpairedSurrogates name.id) := by
  obtain ⟨name, hconstant, hok | ⟨units, hunits, hrefused⟩⟩ :=
    TypedFor.className_ok_or_unpaired h trivial hclass
  · exact .inl hok
  · exact .inr ⟨name, units, hconstant, hunits, hrefused⟩

end Pool

namespace ClassFile

variable {tag : PoolTag} {verbosity : Verbosity} {file : ClassFile} {input bytes rest : Bytes}
  {notices : List Notice} {cause : Error}

/-- What is behind the magic number has a typed pool, and its own handle leads to a class. -/
theorem typed_of_readContents (h : (readContents tag).Reads input file rest notices) :
    file.constants.Typed ∧ file.constants.Leads [.classInfo] file.thisClass.id := by
  rw [readContents_eq] at h
  obtain ⟨version, _, _, _, -, hbehind, rfl⟩ := Reader.reads_bind.mp h
  obtain ⟨constants, _, _, _, hpool, hrest, rfl⟩ := Reader.reads_bind.mp hbehind
  obtain ⟨parts, hparts, rfl⟩ := Reader.reads_map.mp hrest
  obtain ⟨raws, found, hresolves, rfl, -, -⟩ := Pool.reads_read_iff.mp hpool
  refine ⟨hresolves.typed, ?_⟩
  obtain ⟨flags, _, _, _, -, hflags, rfl⟩ := Reader.reads_bind.mp hparts
  obtain ⟨others, _, _, _, hothers, hpair, rfl⟩ := Reader.reads_bind.mp hflags
  obtain ⟨rfl, -, -⟩ := Reader.reads_pure.mp hpair
  obtain ⟨thisClass, _, _, _, hclass, hthis, rfl⟩ := Reader.reads_bind.mp hothers
  obtain ⟨last, _, _, _, -, hpair, rfl⟩ := Reader.reads_bind.mp hthis
  obtain ⟨rfl, -, -⟩ := Reader.reads_pure.mp hpair
  obtain ⟨index, _, _, _, -, hindex, rfl⟩ := Reader.reads_bind.mp hclass
  exact Pool.leads_of_classAt (Reader.reads_ofExcept.mp hindex).1

/-! ## Reading -/

/-- A class is read as if nothing were told of it, and then announced. -/
theorem read_eq_quiet (tag : PoolTag) (verbosity : Verbosity) : read tag verbosity
    = read tag .quiet >>= fun file => do
        announce verbosity file
        return file := by
  simp only [read, bind_assoc]
  congr 1
  funext number
  split
  · simp only [announce, bind_assoc, pure_bind]
  · rfl

/-- Bytes that are parsed are parsed as the same class if nothing is told. -/
theorem exists_parse_quiet (h : parse tag verbosity bytes = ⟨.ok file, notices⟩) :
    ∃ noted, parse tag .quiet bytes = ⟨.ok file, noted⟩ := by
  have hreads := parse_eq_ok_iff.mp h
  rw [read_eq_quiet] at hreads
  obtain ⟨found, _, noted, _, hquiet, hlast, -⟩ := Reader.reads_bind.mp hreads
  obtain ⟨_, _, _, _, hannounce, hpure, -⟩ := Reader.reads_bind.mp hlast
  obtain ⟨rfl, rfl, -⟩ := Reader.reads_pure.mp hpure
  obtain ⟨rfl, -⟩ := announce_reads hannounce
  exact ⟨noted, parse_eq_ok_iff.mpr hquiet⟩

/-- What is read has its name as a string, or a name that is none. -/
theorem name_cases_of_reads (h : (read tag .quiet).Reads bytes file rest notices) :
    (∃ name, file.name = .ok name)
      ∨ ∃ name units, file.constants.constant file.thisClass.id = .ok (.classInfo name)
        ∧ file.constants.constant name.id = .ok (.utf16 units)
        ∧ file.name = .error (.unpairedSurrogates name.id) := by
  obtain ⟨number, _, _, _, -, hbody, rfl⟩ := Reader.reads_bind.mp h
  split at hbody
  next =>
    obtain ⟨contents, _, _, _, hcontents, hlast, rfl⟩ := Reader.reads_bind.mp hbody
    obtain ⟨_, _, _, _, -, hpure, rfl⟩ := Reader.reads_bind.mp hlast
    obtain ⟨rfl, -, -⟩ := Reader.reads_pure.mp hpure
    obtain ⟨htyped, hclass⟩ := typed_of_readContents hcontents
    exact htyped.className_cases hclass
  next => exact absurd hbody Reader.reads_fail

/-- The answer to bytes that a class is read off. -/
theorem value_parse_of_reads (h : (read tag verbosity).Reads bytes file rest notices) :
    (parse tag verbosity bytes).value
      = if rest = [] then .ok file else .error (.trailingBytes rest.length) := by
  rw [parse, h]
  cases rest <;> rfl

/-- Parsing fails where reading does. -/
theorem value_parse_of_error (h : read tag verbosity bytes = ⟨.error cause, notices⟩) :
    (parse tag verbosity bytes).value = .error cause := by
  rw [parse, h]

/-- A class with a name is announced by it, and read all the same. -/
theorem value_verbose_of_name {name : String} (hname : file.name = .ok name)
    (h : (read tag .quiet).Reads bytes file rest notices) :
    (parse tag .verbose bytes).value = (parse tag .quiet bytes).value := by
  have hverbose : (read tag .verbose).Reads bytes file rest (notices ++ [.readClass name
      file.version.render file.fields.length file.methods.length]) := by
    rw [Reader.Reads, read_eq_quiet, Reader.run_bind_ok h]
    simp only [announce, hname]
    rfl
  rw [value_parse_of_reads h, value_parse_of_reads hverbose]

/-- A class without a name is refused for that when it is to be announced. -/
theorem value_verbose_of_no_name (hname : file.name = .error cause)
    (h : (read tag .quiet).Reads bytes file rest notices) :
    (parse tag .verbose bytes).value = .error cause := by
  refine @value_parse_of_error tag .verbose bytes (notices ++ []) cause ?_
  rw [read_eq_quiet, Reader.run_bind_ok h]
  simp only [announce, hname]
  rfl

/-- What is refused when nothing is told is refused for the same cause. -/
theorem value_verbose_of_error (h : read tag .quiet bytes = ⟨.error cause, notices⟩) :
    (parse tag .verbose bytes).value = (parse tag .quiet bytes).value := by
  have hverbose : read tag .verbose bytes = ⟨.error cause, notices⟩ := by
    rw [read_eq_quiet, Reader.run_bind_error h]
  rw [value_parse_of_error h, value_parse_of_error hverbose]

/-- Telling more makes no difference to parsing exactly if the name of the class can be told. -/
theorem value_parse_eq_iff (tag : PoolTag) (bytes : Bytes) :
    (parse tag .verbose bytes).value = (parse tag .quiet bytes).value
      ↔ ∀ file rest notices, (read tag .quiet).Reads bytes file rest notices →
        ∃ name, file.name = .ok name := by
  constructor
  · intro hsame file rest notices hreads
    rcases name_cases_of_reads hreads with hname | ⟨name, units, -, -, hname⟩
    · exact hname
    -- The quiet answer is the class or that bytes are left over, and never that cause.
    · rw [value_verbose_of_no_name hname hreads, value_parse_of_reads hreads] at hsame
      split at hsame <;> cases hsame
  · intro hnames
    rcases Reader.reading_cases (read tag .quiet bytes) with ⟨file, rest, h⟩ | ⟨cause, h⟩
    · obtain ⟨name, hname⟩ := hnames file rest _ h
      exact value_verbose_of_name hname h
    · exact value_verbose_of_error h

end ClassFile

/-! ## Counting -/

namespace Histogram

variable {histogram : Histogram} {file : ClassFile}

/-- Counting quietly is counting over the methods. -/
theorem value_countClass_quiet : (histogram.countClass .quiet file).value
    = countMethods file.constants histogram file.methods := by
  unfold countClass
  rcases countMethods file.constants histogram file.methods with ⟨_ | cause, counted⟩ <;> rfl

/-- The counts are the same, and so is the cause of failure if there is one. -/
theorem value_countClass_verbose : (histogram.countClass .verbose file).value
    = ((histogram.countClass .quiet file).value.1.or
        (match file.name with
          | .ok _ => none
          | .error cause => some cause),
      (histogram.countClass .quiet file).value.2) := by
  rw [value_countClass_quiet]
  unfold countClass
  rcases countMethods file.constants histogram file.methods with ⟨_ | cause, counted⟩
  · dsimp only
    cases file.name <;> rfl
  · rfl

end Histogram

open ClassFile Histogram in
/-- **What telling more changes.** Of the same bytes the same answer is given, unless they start
with a class whose name is text with surrogates that do not pair up: then this is the answer, in
place of the class or of the bytes left over behind it. The counts of a class are the same, and so
is the answer, unless everything was counted and the class has no name. -/
theorem verbosity_matters_iff (tag : PoolTag) (bytes : Bytes) (histogram : Histogram)
    (file : ClassFile) :
    ((parse tag .verbose bytes).value = (parse tag .quiet bytes).value
        ↔ ∀ found rest notices, (read tag .quiet).Reads bytes found rest notices →
          ∃ name, found.name = .ok name)
      ∧ (∀ found rest notices, (read tag .quiet).Reads bytes found rest notices →
        ∀ cause, found.name = .error cause → (parse tag .verbose bytes).value = .error cause
          ∧ ∃ name units, found.constants.constant found.thisClass.id = .ok (.classInfo name)
            ∧ found.constants.constant name.id = .ok (.utf16 units)
            ∧ cause = .unpairedSurrogates name.id)
      ∧ (histogram.countClass .verbose file).value.2 = (histogram.countClass .quiet file).value.2
      ∧ ((histogram.countClass .verbose file).value = (histogram.countClass .quiet file).value
        ↔ ((histogram.countClass .quiet file).value.1 = none → ∃ name, file.name = .ok name)) := by
  refine ⟨value_parse_eq_iff tag bytes, fun found rest notices hreads cause hcause => ?_, ?_, ?_⟩
  · refine ⟨value_verbose_of_no_name hcause hreads, ?_⟩
    rcases name_cases_of_reads hreads with ⟨name, hname⟩ | ⟨name, units, hclass, hunits, hname⟩
    · rw [hname] at hcause
      cases hcause
    · rw [hname] at hcause
      cases hcause
      exact ⟨name, units, hclass, hunits, rfl⟩
  · rw [value_countClass_verbose]
  · rw [value_countClass_verbose]
    rcases (histogram.countClass .quiet file).value with ⟨_ | cause, counted⟩
    · cases file.name <;> simp
    · simp

open ClassFile Histogram in
/-- The class of the name `0xd800` is read and counted, but not if that is to be told. -/
theorem unpaired_name_told : ∃ (file : ClassFile) (notices : List Notice),
    let bytes := BigEndian.u32 magic ++ Version.java8.encode ++ [0, 3, 1, 0, 3, 0xed, 0xa0, 0x80,
      7, 0, 1, 0, 0x21, 0, 2, 0, 0, 0, 0, 0, 0, 0, 0, 0, 0]
    parse ⟨0⟩ .quiet bytes = ⟨.ok file, notices⟩
      ∧ (parse ⟨0⟩ .verbose bytes).value = .error (.unpairedSurrogates ⟨⟨0⟩, 0⟩)
      ∧ (empty.countClass .quiet file).value = (none, empty)
      ∧ (empty.countClass .verbose file).value
        = (some (.unpairedSurrogates ⟨⟨0⟩, 0⟩), empty) := by
  have hpool : (Pool.read ⟨0⟩).Reads [0, 3, 1, 0, 3, 0xed, 0xa0, 0x80, 7, 0, 1,
      0, 0x21, 0, 2, 0, 0, 0, 0, 0, 0, 0, 0, 0, 0]
      (.ofRead ⟨0⟩ [.utf16 [0xd800], .classInfo ⟨⟨⟨0⟩, 0⟩⟩])
      [0, 0x21, 0, 2, 0, 0, 0, 0, 0, 0, 0, 0, 0, 0] _ :=
    Pool.reads_read_iff.mpr ⟨_, _, Pool.resolves_unpaired, rfl, rfl, rfl⟩
  have hparts : (readParts (.ofRead ⟨0⟩ [.utf16 [0xd800], .classInfo ⟨⟨⟨0⟩, 0⟩⟩])).Reads
      [0, 0x21, 0, 2, 0, 0, 0, 0, 0, 0, 0, 0, 0, 0]
      (⟨0x21⟩, ⟨⟨⟨0⟩, 1⟩⟩, none, [], [], [], []) [] [] := rfl
  have hparse := parse_of_reads .java8 hpool hparts
  have hname : (ofParts .java8 (.ofRead ⟨0⟩ [.utf16 [0xd800], .classInfo ⟨⟨⟨0⟩, 0⟩⟩])
      (⟨0x21⟩, ⟨⟨⟨0⟩, 1⟩⟩, none, [], [], [], [])).name
      = .error (.unpairedSurrogates ⟨⟨0⟩, 0⟩) := rfl
  refine ⟨_, _, hparse, value_verbose_of_no_name hname (parse_eq_ok_iff.mp hparse), rfl, ?_⟩
  rw [value_countClass_verbose, hname]
  rfl

end ClassFormat
