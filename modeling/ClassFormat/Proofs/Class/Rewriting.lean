import ClassFormat.Proofs.Class.Parts
import ClassFormat.Proofs.Pool.Rereading
/-!
# Writing a class that was read

Every byte of a class file that was read has a place in the class, so the class is written as the
same bytes. There are two exceptions. What reading left out, with a notice, is not there to be
written. And code may be read that is longer than the format admits, which writing refuses.
-/

namespace ClassFormat

namespace ClassFile

variable {tag : PoolTag} {verbosity : Verbosity} {bytes : Bytes} {file : ClassFile}
  {notices : List Notice}

/-- All attributes of a class, of its members and of code, at any depth. -/
def allAttributes (file : ClassFile) : List Attribute :=
  attributesWithNested (file.fields.flatMap Member.attributes
    ++ file.methods.flatMap Member.attributes ++ file.attributes)

/-- Whether all instructions in a class fit the format. -/
def CodeFits (file : ClassFile) : Prop := ∀ attr ∈ file.allAttributes, attr.payload.CodeFits

/-- What holds of a class that was read: the handles in it, those in its pool included, are on
constants of the kinds they have to be, and its attributes are sound. -/
structure Sound (file : ClassFile) : Prop where
  constants : file.constants.Sound
  thisClass : file.constants.Keeps [.classInfo] file.thisClass.id
  superClass : ∀ id ∈ file.superClass, file.constants.Keeps [.classInfo] id.id
  interfaces : ∀ id ∈ file.interfaces, file.constants.Keeps [.classInfo] id.id
  fields : ∀ field ∈ file.fields, field.Sound file.constants
  methods : ∀ method ∈ file.methods, method.Sound file.constants
  attributes : AttributesSound file.constants file.attributes

/-- The instructions of a class are in its fields, its methods and its own attributes. -/
theorem codeFits_iff : file.CodeFits
    ↔ (∀ field ∈ file.fields, AttributesFit field.attributes)
      ∧ (∀ method ∈ file.methods, AttributesFit method.attributes)
      ∧ AttributesFit file.attributes := by
  rw [CodeFits, allAttributes, forall_mem_attributesWithNested_iff, List.forall_mem_append,
    List.forall_mem_append, List.forall_mem_flatMap, List.forall_mem_flatMap, and_assoc]
  rfl

/-- Parts that were read are written as the same bytes, as far as they fit and nothing was left out.
-/
theorem rewrites_readParts {pool : Pool} {indices : Indices} (h : pool.LaidOut indices)
    (hpool : pool.Sound) (version : Version) :
    (readParts pool).Rewrites (fun parts => (ofParts version pool parts).Sound)
      (fun parts => (ofParts version pool parts).CodeFits) (encodeParts indices) := by
  have hclass := h.takes_readClass.rewrites
  refine ((Reader.takes_flags .ofClass).rewrites.pair (hclass.pair
    (h.takes_readOptionalClass.rewrites.pair ((hclass.sequence .sequenceLength).pair
      (((Member.rewrites_read h).sequence .sequenceLength).pair
        (((Member.rewrites_read h).sequence .sequenceLength).pair
          (rewrites_readAttributes h))))))).congr ?_ ?_ fun _ => rfl
  · rintro parts ⟨-, hthis, hsuper, hinterfaces, hfields, hmethods, hattributes⟩
    exact ⟨hpool, hthis, hsuper, hinterfaces, hfields, hmethods, hattributes⟩
  · intro parts
    rw [codeFits_iff]
    simp only [true_and, implies_true]
    rfl

/-- Telling of a class takes nothing off the input, and nothing was left out for it. -/
theorem announce_reads {rest input : Bytes} {found : Unit}
    (h : (announce verbosity file).Reads input found rest notices) :
    rest = input ∧ Quiet notices := by
  cases verbosity with
  | quiet =>
    obtain ⟨-, rfl, rfl⟩ := Reader.reads_pure.mp h
    exact ⟨rfl, quiet_nil⟩
  | verbose =>
    obtain ⟨name, _, _, _, hname, hnote, rfl⟩ := Reader.reads_bind.mp h
    obtain ⟨-, rfl, rfl⟩ := Reader.reads_ofExcept.mp hname
    obtain ⟨rfl, rfl⟩ := Reader.reads_note.mp hnote
    exact ⟨rfl, quiet_singleton fun hdrop => nomatch hdrop⟩

/-- A class is parsed if reading it takes the whole input. -/
theorem parse_eq_ok_iff : parse tag verbosity bytes = ⟨.ok file, notices⟩
    ↔ (read tag verbosity).Reads bytes file [] notices := by
  unfold parse Reader.Reads
  split
  · rename_i found noted heq
    rw [heq]
    simp
  · rename_i found rest noted hne heq
    rw [heq]
    simp only [Noted.mk.injEq, reduceCtorEq, false_and, Reading.mk.injEq, Except.ok.injEq,
      Prod.mk.injEq, false_iff, not_and]
    rintro ⟨-, rfl⟩
    exact (hne rfl).elim
  · rename_i cause noted heq
    rw [heq]
    simp

/-- A class is read from its version, a pool and its parts. -/
theorem parse_of_reads {constants : Pool} {parts : Parts} {input middle : Bytes}
    {before behind : List Notice} (version : Version)
    (hpool : (Pool.read tag).Reads input constants middle before)
    (hparts : (readParts constants).Reads middle parts [] behind) :
    parse tag .quiet (BigEndian.u32 magic ++ version.encode ++ input)
      = ⟨.ok (ofParts version constants parts), before ++ behind⟩ := by
  have hcontents : (readContents tag).Reads (version.encode ++ input)
      (ofParts version constants parts) [] (before ++ behind) := by
    rw [readContents_eq]
    refine Reader.reads_bind.mpr
      ⟨version, input, [], _, Version.reads_read_iff.mpr ⟨rfl, rfl⟩, ?_, rfl⟩
    exact Reader.reads_bind.mpr
      ⟨constants, middle, before, behind, hpool, Reader.reads_map.mpr ⟨parts, hparts, rfl⟩, rfl⟩
  rw [parse_eq_ok_iff, List.append_assoc]
  refine Reader.reads_bind.mpr ⟨magic, _, [], _, Reader.reads_u32.mpr ⟨rfl, rfl⟩, ?_, rfl⟩
  rw [if_pos rfl]
  refine Reader.reads_bind.mpr ⟨_, [], _, [], hcontents, ?_, (List.append_nil _).symm⟩
  exact Reader.reads_bind.mpr ⟨(), [], [], [], Reader.reads_pure.mpr ⟨rfl, rfl, rfl⟩,
    Reader.reads_pure.mpr ⟨rfl, rfl, rfl⟩, rfl⟩

/-- What is known of a class that was read. -/
theorem rewritten_of_parse (h : parse tag verbosity bytes = ⟨.ok file, notices⟩) :
    file.constants.Reachable ∧ file.Sound
      ∧ Rewritten file.CodeFits bytes notices file.encode := by
  have hreads := parse_eq_ok_iff.mp h
  obtain ⟨number, _, _, _, hnumber, hbody, rfl⟩ := Reader.reads_bind.mp hreads
  obtain ⟨rfl, rfl⟩ := Reader.reads_u32.mp hnumber
  split at hbody
  case isFalse => exact absurd hbody Reader.reads_fail
  case isTrue hmagic =>
    subst hmagic
    obtain ⟨contents, _, _, _, hcontents, hrest, rfl⟩ := Reader.reads_bind.mp hbody
    obtain ⟨_, _, announced, _, hannounce, hpure, rfl⟩ := Reader.reads_bind.mp hrest
    obtain ⟨rfl, rfl, rfl⟩ := Reader.reads_pure.mp hpure
    obtain ⟨rfl, hannounced⟩ := announce_reads hannounce
    rw [readContents_eq] at hcontents
    obtain ⟨version, _, _, _, hversion, hpoolRest, rfl⟩ := Reader.reads_bind.mp hcontents
    obtain ⟨constants, _, poolNoted, noted, hpool, hpartsRest, rfl⟩ :=
      Reader.reads_bind.mp hpoolRest
    obtain ⟨parts, hparts, rfl⟩ := Reader.reads_map.mp hpartsRest
    obtain ⟨rfl, rfl⟩ := Version.reads_read_iff.mp hversion
    obtain ⟨hpoolQuiet, hpoolSound, used, indices, rfl, hlaidOut, hencode⟩ :=
      Pool.rewrites_read hpool
    obtain ⟨hsound, more, hmore, hrewritten⟩ :=
      (rewrites_readParts hlaidOut hpoolSound version).rewritten hparts
    rw [List.append_nil] at hmore
    subst hmore
    refine ⟨.read hpool, hsound, ?_⟩
    -- What stands in front of the parts is written as it was read, and nothing in it is left out.
    have hheader : Rewritten True (BigEndian.u32 magic ++ version.encode ++ used) poolNoted
        (.ok (BigEndian.u32 magic ++ version.encode ++ used)) := .exact rfl hpoolQuiet
    have hwhole := (hheader.append hrewritten).congr (true_and _).symm.to_iff
    rw [encode_eq]
    simp only [ofParts, hencode]
    simp only [List.append_assoc] at hwhole ⊢
    refine hwhole.congr_quiet ?_
    simp only [quiet_append, quiet_nil, hannounced, true_and, and_true]

/-! ## A class with a method -/

/-- Constants of a class `A` with a method `m`, as they are in a file. -/
def methodRaws : List RawConstant :=
  [.leaf (.utf8 "A"), .classInfo 1, .leaf (.utf8 "m"), .leaf (.utf8 "()V"), .leaf (.utf8 "Code"),
    .leaf (.utf8 "LocalVariableTable"), .leaf (.utf8 "I")]

/-- The same constants in a pool. -/
def methodConstants : List Constant :=
  [.utf8 "A", .classInfo ⟨⟨⟨0⟩, 0⟩⟩, .utf8 "m", .utf8 "()V", .utf8 "Code",
    .utf8 "LocalVariableTable", .utf8 "I"]

/-- What stands behind the pool in a class with a method that returns at once. Its table of local
variables has two rows, the second one with its name at the given index. -/
def methodBytes (name : UInt8) : Bytes :=
  [0, 0, 0, 2, 0, 0, 0, 0, 0, 0, 0, 1, 0, 0, 0, 3, 0, 4, 0, 1]
    ++ [0, 5, 0, 0, 0, 41, 0, 0, 0, 1, 0, 0, 0, 1, 177, 0, 0, 0, 1]
    ++ [0, 6, 0, 0, 0, 22, 0, 2, 0, 0, 0, 1, 0, 1, 0, 7, 0, 0, 0, 3, 0, 1, 0, name, 0, 7, 0, 0]
    ++ [0, 0]

/-- The bytes of that class. -/
def methodFile (name : UInt8) : Bytes :=
  BigEndian.u32 magic ++ Version.java8.encode
    ++ (BigEndian.encode 2 8 ++ RawPool.bytesOf methodRaws ++ methodBytes name)

/-- What that class is made of, with some entries in its table. -/
def methodParts (entries : List (VariableEntry Span)) : Parts :=
  (⟨0⟩, ⟨⟨⟨0⟩, 1⟩⟩, none, [], [], [⟨⟨0⟩, ⟨⟨⟨0⟩, 2⟩⟩, ⟨⟨⟨0⟩, 3⟩⟩, [⟨⟨⟨⟨0⟩, 4⟩⟩,
    .code ⟨0, 1, [177], [], [⟨⟨⟨⟨0⟩, 5⟩⟩, .localVariables ⟨entries⟩⟩]⟩⟩]⟩], [])

/-- The variable of the table. -/
def methodVariable (ranges : List Span) : VariableEntry Span :=
  ⟨⟨⟨⟨0⟩, 0⟩⟩, ⟨⟨⟨0⟩, 6⟩⟩, .base .int, 0, ranges⟩

/-- The constants of the class are resolved as they should be. -/
theorem resolves_methodRaws : Pool.Resolves ⟨0⟩ methodRaws methodConstants where
  canonical := by
    intro raw hraw
    simp only [methodRaws, List.mem_cons, List.not_mem_nil, or_false] at hraw
    rcases hraw with rfl | rfl | rfl | rfl | rfl | rfl | rfl
    case inr.inl => trivial
    all_goals
      show (Text.ModifiedUtf8.encode (Text.Utf16.ofString _)).length < 2 ^ 16
      decide
  room := by decide
  resolved := .cons rfl (.cons rfl (.cons rfl (.cons rfl (.cons rfl (.cons rfl (.cons rfl .nil))))))

/-- The class is parsed to what stands behind its pool. -/
theorem parse_methodFile {name : UInt8} {parts : Parts} {noted : List Notice}
    (hparts : (readParts (.ofRead ⟨0⟩ methodConstants)).Reads (methodBytes name) parts [] noted) :
    ∃ before, Quiet before ∧ parse ⟨0⟩ .quiet (methodFile name)
      = ⟨.ok (ofParts .java8 (.ofRead ⟨0⟩ methodConstants) parts), before ++ noted⟩ := by
  have hpool : (Pool.read ⟨0⟩).Reads _ (.ofRead ⟨0⟩ methodConstants) (methodBytes name) _ :=
    Pool.reads_read_iff.mpr ⟨_, _, resolves_methodRaws, rfl, rfl, rfl⟩
  exact ⟨_, Pool.quiet_readPool _ _ _ _, parse_of_reads .java8 hpool hparts⟩

/-- The variable is sound, whatever ranges it has. -/
theorem sound_methodVariable {ranges : List Span} (h : ranges ≠ [])
    (hranges : ∀ span ∈ ranges, span.start < span.stop) :
    (methodVariable ranges).Sound (.ofRead ⟨0⟩ methodConstants) where
  name_keeps := Pool.Leads.keeps ⟨_, rfl, List.mem_singleton_self _⟩
  descriptor_keeps := Pool.Leads.keeps ⟨_, rfl, List.mem_singleton_self _⟩
  text_eq := rfl
  wellFormed := trivial
  ranges_ne := h
  range_lt := hranges

/-- The class is sound if the entries of its table are. -/
theorem sound_methodParts {entries : List (VariableEntry Span)}
    (h : ∀ entry ∈ entries, entry.Sound (.ofRead ⟨0⟩ methodConstants)) :
    (ofParts .java8 (.ofRead ⟨0⟩ methodConstants) (methodParts entries)).Sound where
  constants := resolves_methodRaws.typed.sound
  thisClass := Pool.Leads.keeps ⟨_, rfl, List.mem_singleton_self _⟩
  superClass := by
    rintro _ ⟨⟩
  interfaces := List.forall_mem_nil _
  fields := List.forall_mem_nil _
  methods := by
    refine List.forall_mem_singleton.mpr ⟨Pool.Leads.keeps ⟨_, rfl, List.mem_singleton_self _⟩,
      Pool.Leads.keeps ⟨_, rfl, List.mem_singleton_self _⟩, List.forall_mem_singleton.mpr
        (List.forall_mem_cons.mpr ⟨?_, List.forall_mem_singleton.mpr ?_⟩)⟩
    · have hname : (Pool.ofRead ⟨0⟩ methodConstants).constant ⟨⟨0⟩, 4⟩
          = .ok (.utf8 AttributeKind.code.name) := rfl
      exact Attribute.sound_of_name hname rfl (List.forall_mem_nil _)
    · have hname : (Pool.ofRead ⟨0⟩ methodConstants).constant ⟨⟨0⟩, 5⟩
          = .ok (.utf8 AttributeKind.localVariables.name) := rfl
      exact Attribute.sound_of_name hname rfl h
  attributes := List.forall_mem_nil _

/-- One instruction fits, whatever the table says. -/
theorem codeFits_methodParts (entries : List (VariableEntry Span)) :
    (ofParts .java8 (.ofRead ⟨0⟩ methodConstants) (methodParts entries)).CodeFits := by
  refine codeFits_iff.mpr
    ⟨List.forall_mem_nil _, List.forall_mem_singleton.mpr ?_, List.forall_mem_nil _⟩
  refine List.forall_mem_singleton.mpr
    (List.forall_mem_cons.mpr ⟨?_, List.forall_mem_singleton.mpr ?_⟩)
  · rintro _ ⟨⟩
    show 1 ≤ Code.maxLength
    decide
  · rintro _ ⟨⟩

/-! ## Writing back -/

/-- **A class that was read is written back byte for byte**, exactly if nothing was left out and all
instructions fit the format. Instructions that do not fit are refused for their length and for
nothing else, and if only something was left out, other bytes are written. -/
theorem encode_of_parse (h : parse tag verbosity bytes = ⟨.ok file, notices⟩) :
    (file.encode = .ok bytes ↔ Quiet notices ∧ file.CodeFits)
    ∧ (¬ file.CodeFits → ∃ length, Code.maxLength < length
      ∧ file.encode = .error (.outOfRange .codeLength length))
    ∧ (file.CodeFits → ¬ Quiet notices → ∃ others, file.encode = .ok others ∧ others ≠ bytes) := by
  obtain ⟨-, -, hrewritten⟩ := rewritten_of_parse h
  refine ⟨⟨fun hencode => ?_, ?_⟩, hrewritten.of_not_fits, fun hfits hlost => ?_⟩
  -- Code that does not fit is refused, and here something was written.
  · have hfits : file.CodeFits := by
      by_contra hnot
      obtain ⟨length, -, herror⟩ := hrewritten.of_not_fits hnot
      rw [hencode] at herror
      cases herror
    obtain ⟨written, hwritten, -, hiff⟩ := hrewritten.of_fits hfits
    rw [hencode, Except.ok.injEq] at hwritten
    exact ⟨hiff.mp hwritten.symm, hfits⟩
  · rintro ⟨hquiet, hfits⟩
    obtain ⟨written, hwritten, -, hiff⟩ := hrewritten.of_fits hfits
    rw [hwritten, hiff.mpr hquiet]
  · obtain ⟨written, hwritten, -, hiff⟩ := hrewritten.of_fits hfits
    exact ⟨written, hwritten, fun heq => hlost (hiff.mp heq)⟩

/-- A class whose table has two rows of the same variable comes back. If the second row has no name,
it is left out, and other bytes are written. -/
theorem encode_of_parse_of_rows :
    (∃ file notices, parse ⟨0⟩ .quiet (methodFile 1) = ⟨.ok file, notices⟩
      ∧ file.encode = .ok (methodFile 1))
    ∧ ∃ file notices others, parse ⟨0⟩ .quiet (methodFile 0) = ⟨.ok file, notices⟩
      ∧ .droppedRow 0 (.invalidConstantIndex 0) ∈ notices
      ∧ file.encode = .ok others ∧ others ≠ methodFile 0 := by
  constructor
  · have hparts : (readParts (.ofRead ⟨0⟩ methodConstants)).Reads (methodBytes 1)
        (methodParts [methodVariable [⟨0, 2⟩, ⟨3, 5⟩]]) [] [] := rfl
    obtain ⟨before, hquiet, hparse⟩ := parse_methodFile hparts
    refine ⟨_, _, hparse, (encode_of_parse hparse).1.mpr ⟨?_, codeFits_methodParts _⟩⟩
    rwa [List.append_nil]
  · have hparts : (readParts (.ofRead ⟨0⟩ methodConstants)).Reads (methodBytes 0)
        (methodParts [methodVariable [⟨0, 2⟩]]) [] [.droppedRow 0 (.invalidConstantIndex 0)] := rfl
    obtain ⟨before, -, hparse⟩ := parse_methodFile hparts
    have hlost := List.mem_append_right before (List.mem_singleton_self
      (Notice.droppedRow 0 (.invalidConstantIndex 0)))
    obtain ⟨others, hencode, hne⟩ := (encode_of_parse hparse).2.2 (codeFits_methodParts _)
      fun hquiet => hquiet _ hlost (.row 0 _)
    exact ⟨_, _, others, hparse, hlost, hencode, hne⟩

end ClassFile

end ClassFormat
