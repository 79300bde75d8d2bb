import ClassFormat.Attribute.Read
import ClassFormat.Proofs.Pool.Handle
/-!
# Parts of payloads, read and written

Handlers, line numbers, bootstrap methods and parameters are the elements of the tables that
attributes hold. All but parameters are read in exactly one way. The name of a parameter may be left
out, and then index 0 is written for it, which takes as many bytes.
-/

namespace ClassFormat

/-- The constants that a field can have as its value. -/
def constantValueTags : List ConstantTag := [.integer, .float, .long, .double, .string]

/-- The class that is caught, if there is one, is a class of the pool. -/
def ExceptionHandler.Sound (pool : Pool) (handler : ExceptionHandler) : Prop :=
  ∀ id ∈ handler.catchType, pool.Keeps [.classInfo] id.id

/-- The name of the parameter, if there is one, is a text of the pool. -/
def MethodParameter.Sound (pool : Pool) (parameter : MethodParameter) : Prop :=
  ∀ name ∈ parameter.name, pool.Keeps [.utf8] name.id

/-- The handler with the handle of its class replaced. -/
def ExceptionHandler.mapHandles (replace : ConstantId → ConstantId) (handler : ExceptionHandler) :
    ExceptionHandler :=
  { handler with catchType := handler.catchType.map fun id => ⟨replace id.id⟩ }

/-- The bootstrap method with its own handle and those of its arguments replaced. -/
def BootstrapMethod.mapHandles (replace : ConstantId → ConstantId) (method : BootstrapMethod) :
    BootstrapMethod :=
  ⟨replace method.handle, method.arguments.map replace⟩

/-- The parameter with the handle of its name replaced. -/
def MethodParameter.mapHandles (replace : ConstantId → ConstantId) (parameter : MethodParameter) :
    MethodParameter :=
  { parameter with name := parameter.name.map fun name => ⟨replace name.id⟩ }

/-! ## Layout of the parts -/

/-- The offset of a location that has one. -/
def Location.read : Reader Location := Location.fixed <$> UInt16.toNat <$> Reader.u16

/-- A line number as a pair of readers. -/
theorem LineNumber.read_eq : LineNumber.read
    = (fun (parts : Location × UInt16) => ⟨parts.1, parts.2⟩)
      <$> Location.read.pair Reader.u16 := by
  simp only [read, Location.read, Reader.pair, map_bind, map_pure, bind_map_left]

/-- Two bytes for the place and two for the line. -/
theorem LineNumber.encode_eq (line : LineNumber) : line.encode
    = appendWritten (BigEndian.u16 <$> line.start.narrow .lineNumberStart)
      (.ok (BigEndian.u16 line.line)) := by
  rw [encode]
  cases line.start.narrow .lineNumberStart <;> rfl

/-- A handler as nested pairs of readers, one for each part. -/
theorem ExceptionHandler.read_eq (pool : Pool) : ExceptionHandler.read pool
    = (fun (parts : Location × Location × Location × Option ClassId) =>
        ⟨parts.1, parts.2.1, parts.2.2.1, parts.2.2.2⟩)
      <$> Location.read.pair (Location.read.pair (Location.read.pair pool.readOptionalClass)) := by
  simp only [read, Location.read, Reader.pair, map_bind, map_pure, bind_map_left, bind_assoc,
    pure_bind]

/-- Two bytes for each of the locations and two for the class. -/
theorem ExceptionHandler.encode_eq (indices : Indices) (handler : ExceptionHandler) :
    handler.encode indices
      = appendWritten (BigEndian.u16 <$> handler.start.narrow .handlerStart)
        (appendWritten (BigEndian.u16 <$> handler.stop.narrow .handlerEnd)
          (appendWritten (BigEndian.u16 <$> handler.target.narrow .handlerTarget)
            (indices.encodeOptionalClass handler.catchType))) := by
  rw [encode, ← appendWritten_assoc, ← appendWritten_assoc]
  cases handler.start.narrow .handlerStart with
  | error cause => rfl
  | ok start =>
    cases handler.stop.narrow .handlerEnd with
    | error cause => rfl
    | ok stop => cases handler.target.narrow .handlerTarget <;> rfl

/-- A bootstrap method as a pair of readers, the second one counted. -/
theorem BootstrapMethod.read_eq (pool : Pool) : BootstrapMethod.read pool
    = (fun (parts : ConstantId × List ConstantId) => ⟨parts.1, parts.2⟩)
      <$> (Reader.u16 >>= fun index =>
        Reader.ofExcept (pool.idWithTag [.methodHandle] .methodHandle index)).pair
          (Reader.sequence pool.readId) := by
  simp only [read, Reader.pair, map_bind, map_pure, bind_assoc]

/-- The handle of the method and the counted list of its arguments. -/
theorem BootstrapMethod.encode_eq (indices : Indices) (method : BootstrapMethod) :
    method.encode indices = appendWritten (indices.encode method.handle)
      (encodeCounted .sequenceLength indices.encode method.arguments) := by
  rw [encode, encodeSequence_eq]
  rfl

/-- A parameter as a pair of readers. -/
theorem MethodParameter.read_eq (pool : Pool) : MethodParameter.read pool
    = (fun (parts : Option Utf8Id × ParameterFlags) => ⟨parts.1, parts.2⟩)
      <$> (MethodParameter.readName pool).pair AccessFlags.read := by
  simp only [read, Reader.pair, map_bind, bind_pure_comp, Functor.map_map]

/-- The name of a parameter, or index 0 for none. -/
def MethodParameter.encodeName (indices : Indices) : Option Utf8Id → Except Error Bytes
  | none => .ok (BigEndian.u16 0)
  | some name => indices.encode name.id

/-- Two bytes for the name, zero if there is none, and two for the flags. -/
theorem MethodParameter.encode_eq (indices : Indices) (parameter : MethodParameter) :
    parameter.encode indices
      = appendWritten (encodeName indices parameter.name) (.ok parameter.flags.encode) := by
  obtain ⟨name?, flags⟩ := parameter
  cases name? <;> rfl

/-! ## Lengths -/

section

variable {indices : Indices} {written : Bytes}

theorem length_of_number {what : Quantity} {place : Location}
    (hwrite : BigEndian.u16 <$> place.narrow what = .ok written) : written.length = 2 := by
  obtain ⟨n, -, rfl⟩ := map_eq_ok_iff.mp hwrite
  exact BigEndian.length_u16 n

theorem length_of_ok {bytes : Bytes} {length : Nat} (h : bytes.length = length) (found : Bytes)
    (hfound : Except.ok (ε := Error) bytes = .ok found) : found.length = length := by
  cases hfound
  exact h

theorem LineNumber.length_of_encode {line : LineNumber} (hwrite : line.encode = .ok written) :
    written.length = 4 := by
  rw [encode_eq] at hwrite
  exact length_of_appendWritten hwrite (fun _ => length_of_number)
    (length_of_ok (BigEndian.length_u16 _))

theorem Indices.length_encodeOptionalClass {id? : Option ClassId}
    (hwrite : indices.encodeOptionalClass id? = .ok written) : written.length = 2 := by
  cases id? with
  | none => exact length_of_ok (BigEndian.length_u16 _) written hwrite
  | some id => exact Indices.length_encode hwrite

theorem ExceptionHandler.length_of_encode {handler : ExceptionHandler}
    (hwrite : handler.encode indices = .ok written) : written.length = 8 := by
  rw [encode_eq] at hwrite
  exact length_of_appendWritten hwrite (fun _ => length_of_number) fun _ hwrite =>
    length_of_appendWritten hwrite (fun _ => length_of_number) fun _ hwrite =>
      length_of_appendWritten hwrite (fun _ => length_of_number) fun _ =>
        Indices.length_encodeOptionalClass

theorem BootstrapMethod.length_of_encode {method : BootstrapMethod}
    (hwrite : method.encode indices = .ok written) :
    written.length = 4 + 2 * method.arguments.length := by
  rw [encode_eq] at hwrite
  have hlength : written.length = 2 + (2 + (method.arguments.map fun _ => 2).sum) :=
    length_of_appendWritten hwrite (fun _ => Indices.length_encode) fun _ hwrite =>
      length_of_encodeCounted hwrite fun _ _ _ => Indices.length_encode
  rw [List.map_const', List.sum_replicate_nat] at hlength
  omega

theorem MethodParameter.length_of_encode {parameter : MethodParameter}
    (hwrite : parameter.encode indices = .ok written) : written.length = 4 := by
  rw [encode_eq] at hwrite
  refine length_of_appendWritten hwrite (fun bytes hname => ?_)
    (length_of_ok (BigEndian.length_u16 _))
  cases hcase : parameter.name with
  | none =>
    rw [hcase] at hname
    exact length_of_ok (BigEndian.length_u16 _) bytes hname
  | some name =>
    rw [hcase] at hname
    exact Indices.length_encode hname

end

/-! ## What was read is written back -/

section

variable {pool again : Pool} {indices later : Indices}

/-- Any two bytes are a fixed location, which is written as the same two bytes. -/
theorem Location.takes_read (what : Quantity) : Location.read.Takes (fun _ => True)
    (fun place => BigEndian.u16 <$> place.narrow what) := by
  constructor
  intro input place rest notices
  rw [read, Reader.reads_map]
  constructor
  · rintro ⟨offset, hoffset, rfl⟩
    exact (Reader.takes_toNat what).iff.mp hoffset
  · intro htaken
    cases place with
    | fixed offset => exact ⟨offset, (Reader.takes_toNat what).iff.mpr htaken, rfl⟩
    | pending label =>
      obtain ⟨-, -, used, hused, -⟩ := htaken
      cases hused

/-- A line number is written as the four bytes it was read from. -/
theorem LineNumber.rewrites_read :
    LineNumber.read.Rewrites (fun _ => True) (fun _ => True) LineNumber.encode := by
  rw [read_eq]
  exact ((Location.takes_read .lineNumberStart).rewrites.pair Reader.takes_u16.rewrites).map
    (fun _ _ => trivial) (fun _ => by simp) fun _ => encode_eq _

/-- A handler is written as the eight bytes it was read from. -/
theorem ExceptionHandler.rewrites_read (h : pool.LaidOut indices) :
    (ExceptionHandler.read pool).Rewrites (Sound pool) (fun _ => True) (encode indices) := by
  rw [read_eq]
  exact ((Location.takes_read .handlerStart).rewrites.pair
    ((Location.takes_read .handlerEnd).rewrites.pair
      ((Location.takes_read .handlerTarget).rewrites.pair
        h.takes_readOptionalClass.rewrites))).map
    (fun _ hgood => hgood.2.2.2) (fun _ => by simp) fun _ => encode_eq ..

/-- A bootstrap method is written as the bytes it was read from. -/
theorem BootstrapMethod.rewrites_read (h : pool.LaidOut indices) :
    (BootstrapMethod.read pool).Rewrites (fun method => pool.Keeps [.methodHandle] method.handle)
      (fun _ => True) (encode indices) := by
  rw [read_eq]
  exact ((h.takes_idWithTag [.methodHandle] .methodHandle).rewrites.pair
    (h.takes_readId.rewrites.sequence .sequenceLength)).map
    (fun _ hgood => hgood.1) (fun _ => by simp) fun _ => encode_eq ..

/-- A name that is left out is written as index 0, at which no name stands. -/
theorem MethodParameter.rewrites_readName (h : pool.LaidOut indices) :
    (readName pool).Rewrites (fun name? => ∀ name ∈ name?, pool.Keeps [.utf8] name.id)
      (fun _ => True) (encodeName indices) := by
  constructor
  intro input name? rest notices hreads
  obtain ⟨index, middle, _, behind, hindex, hname, rfl⟩ := Reader.reads_bind.mp hreads
  obtain ⟨rfl, rfl⟩ := Reader.reads_u16.mp hindex
  split at hname
  · rename_i hzero
    obtain ⟨rfl, rfl, rfl⟩ := Reader.reads_pure.mp hname
    subst hzero
    exact ⟨by simp, BigEndian.u16 0, rfl, .exact rfl quiet_nil⟩
  rename_i hzero
  split at hname
  · rename_i name hfound
    obtain ⟨rfl, rfl, rfl⟩ := Reader.reads_pure.mp hname
    obtain ⟨hindexOf, hkeeps⟩ := h.utf8At_iff.mp hfound
    refine ⟨?_, BigEndian.u16 index, rfl, .exact ?_ quiet_nil⟩
    · intro other hother
      cases hother
      exact hkeeps
    · exact Pool.LaidOut.encode_eq_ok_iff.mpr ⟨index, hindexOf, rfl⟩
  · rename_i cause _
    obtain ⟨_, _, _, _, hnote, hnone, rfl⟩ := Reader.reads_bind.mp hname
    obtain ⟨rfl, rfl⟩ := Reader.reads_note.mp hnote
    obtain ⟨rfl, rfl, rfl⟩ := Reader.reads_pure.mp hnone
    -- The index was not 0, so leaving the name out changes the bytes, and it is told.
    refine ⟨by simp, BigEndian.u16 index, rfl, fun _ => ⟨BigEndian.u16 0, rfl, ?_, ?_⟩,
      fun hnot => absurd trivial hnot⟩
    · simp only [BigEndian.length_u16, Nat.le_refl]
    · refine iff_of_false (fun heq => hzero (BigEndian.u16_injective heq).symm) fun hquiet => ?_
      exact hquiet (.droppedParameterName cause) (by simp) (.parameterName cause)

/-- A parameter is written as the four bytes it was read from. -/
theorem MethodParameter.rewrites_read (h : pool.LaidOut indices) :
    (MethodParameter.read pool).Rewrites (Sound pool) (fun _ => True) (encode indices) := by
  rw [read_eq]
  exact ((rewrites_readName h).pair (Reader.takes_flags _).rewrites).map
    (fun _ hgood => hgood.1) (fun _ => by simp) fun _ => encode_eq ..

/-- A constant value is written as the index it was read from. -/
theorem rewrites_readConstantValue (h : pool.LaidOut indices) :
    (readConstantValue pool).Rewrites (pool.Keeps constantValueTags) (fun _ => True)
      indices.encode :=
  (h.takes_idWithTag constantValueTags .constantValue).rewrites

/-! ## What was written is read again -/

/-- A line number names no constant, so it comes back as it was. -/
theorem LineNumber.rereads_read :
    LineNumber.read.Rereads (fun _ => True) LineNumber.encode (fun line => line) := by
  rw [read_eq]
  exact ((Location.takes_read .lineNumberStart).rereads_self.pair
    Reader.takes_u16.rereads_self).map _ (fun line => (line.start, line.line))
    (fun _ _ => ⟨trivial, trivial⟩) encode_eq fun _ _ => rfl

/-- A handler comes back with the counterpart of its class. -/
theorem ExceptionHandler.rereads_read (h : again.Mirrors indices later pool) :
    (ExceptionHandler.read again).Rereads (Sound pool) (encode indices)
      (mapHandles (again.counterpart indices)) := by
  rw [read_eq]
  exact ((Location.takes_read .handlerStart).rereads_self.pair
    ((Location.takes_read .handlerEnd).rereads_self.pair
      ((Location.takes_read .handlerTarget).rereads_self.pair h.rereads_readOptionalClass))).map _
    (fun handler => (handler.start, handler.stop, handler.target, handler.catchType))
    (fun _ hgood => ⟨trivial, trivial, trivial, hgood⟩) (fun _ => encode_eq ..) fun _ _ => rfl

/-- A bootstrap method comes back with the counterparts of its handles. -/
theorem BootstrapMethod.rereads_read (h : again.Mirrors indices later pool) :
    (BootstrapMethod.read again).Rereads
      (fun method => pool.Keeps [.methodHandle] method.handle) (encode indices)
      (mapHandles (again.counterpart indices)) := by
  rw [read_eq]
  exact ((h.rereads_idWithTag [.methodHandle] .methodHandle).pair
    (h.rereads_readId.sequence .sequenceLength)).map _
    (fun method => (method.handle, method.arguments))
    (fun _ hgood => ⟨hgood, fun _ _ => trivial⟩) (fun _ => encode_eq ..) fun _ _ => rfl

theorem MethodParameter.rereads_readName (h : again.Mirrors indices later pool) :
    (readName again).Rereads (fun name? => ∀ name ∈ name?, pool.Keeps [.utf8] name.id)
      (encodeName indices) (Option.map fun name => ⟨again.counterpart indices name.id⟩) := by
  constructor
  intro name? written hkeeps hwrite
  refine ⟨[], quiet_nil, fun rest => ?_⟩
  rw [readName, Reader.reads_bind]
  cases name? with
  | none =>
    cases hwrite
    exact ⟨0, rest, [], [], Reader.reads_u16.mpr ⟨rfl, rfl⟩, Reader.reads_pure.mpr ⟨rfl, rfl, rfl⟩,
      rfl⟩
  | some name =>
    obtain ⟨index, hindex, rfl⟩ := Pool.LaidOut.encode_eq_ok_iff.mp hwrite
    -- An index that was given out is not 0, so the reader looks the name up.
    have hfound : again.utf8At index = .ok ⟨again.counterpart indices name.id⟩ :=
      h.after.utf8At_iff.mpr
        ⟨h.indexOf_counterpart hindex, h.keeps_counterpart hwrite (hkeeps name rfl)⟩
    refine ⟨index, rest, [], [], Reader.reads_u16.mpr ⟨rfl, rfl⟩, ?_, rfl⟩
    rw [if_neg (h.before.index_ne_zero hindex), hfound]
    exact Reader.reads_pure.mpr ⟨rfl, rfl, rfl⟩

/-- A parameter comes back with the counterpart of its name. -/
theorem MethodParameter.rereads_read (h : again.Mirrors indices later pool) :
    (MethodParameter.read again).Rereads (Sound pool) (encode indices)
      (mapHandles (again.counterpart indices)) := by
  rw [read_eq]
  exact ((rereads_readName h).pair (Reader.takes_flags _).rereads_self).map _
    (fun parameter => (parameter.name, parameter.flags)) (fun _ hgood => ⟨hgood, trivial⟩)
    (fun _ => encode_eq ..) fun _ _ => rfl

/-- A constant value comes back as its counterpart. -/
theorem rereads_readConstantValue (h : again.Mirrors indices later pool) :
    (readConstantValue again).Rereads (pool.Keeps constantValueTags) indices.encode
      (again.counterpart indices) :=
  h.rereads_idWithTag constantValueTags .constantValue

end

end ClassFormat
