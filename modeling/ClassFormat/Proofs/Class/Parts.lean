import ClassFormat.Class.Basic
import ClassFormat.Proofs.Attribute.Payload
/-!
# Members and what a class is made of

Behind its pool a class is a row of parts, and each member is one, too. So what is known of handles
and of attributes carries over part by part, in both directions.
-/

namespace ClassFormat

/-- Whether attributes and all that are inside them are sound. -/
def AttributesSound (pool : Pool) (attributes : List Attribute) : Prop :=
  ∀ attr ∈ attributes, ∀ part ∈ attr.withNested, part.Sound pool

/-- Whether all instructions in attributes fit the format. -/
def AttributesFit (attributes : List Attribute) : Prop :=
  ∀ attr ∈ attributes, ∀ part ∈ attr.withNested, part.payload.CodeFits

/-- What was written fits the format. -/
theorem attributesFit_of_encode {indices : Indices} {attributes : List Attribute} {written : Bytes}
    (hwrite : encodeAttributes indices attributes = .ok written) : AttributesFit attributes := by
  rw [encodeAttributes_eq] at hwrite
  intro attr hattr
  exact Attribute.codeFits_of_encode (exists_of_encodeCounted hwrite attr hattr)

/-- Replacing handles and joining rows does not touch instructions. -/
theorem attributesFit_map {replace : ConstantId → ConstantId} {attributes : List Attribute}
    (h : AttributesFit attributes) :
    AttributesFit (attributes.map (Attribute.mapJoined replace)) :=
  List.forall_mem_map.mpr fun attr hattr => Attribute.codeFits_mapJoined replace (h attr hattr)

namespace Member

variable {carrier : FlagCarrier}

/-- Whether the name and the descriptor of a member are text, and its attributes are sound. -/
structure Sound (pool : Pool) (part : Member carrier) : Prop where
  name_keeps : pool.Keeps [.utf8] part.name.id
  descriptor_keeps : pool.Keeps [.utf8] part.descriptor.id
  attributes : AttributesSound pool part.attributes

/-- A member with its handles replaced and the rows of its tables joined. -/
def mapJoined (replace : ConstantId → ConstantId) (part : Member carrier) : Member carrier where
  flags := part.flags
  name := ⟨replace part.name.id⟩
  descriptor := ⟨replace part.descriptor.id⟩
  attributes := part.attributes.map (Attribute.mapJoined replace)

theorem read_eq (pool : Pool) : (Member.read pool : Reader (Member carrier))
    = (fun (parts : AccessFlags carrier × Utf8Id × Utf8Id × List Attribute) =>
        ⟨parts.1, parts.2.1, parts.2.2.1, parts.2.2.2⟩)
      <$> AccessFlags.read.pair (pool.readUtf8.pair
        (pool.readUtf8.pair (readAttributes pool))) := by
  simp only [read, Reader.pair, map_bind, map_pure, bind_assoc, pure_bind]

theorem encode_eq (indices : Indices) (part : Member carrier) : part.encode indices
    = appendWritten (.ok part.flags.encode) (appendWritten (indices.encode part.name.id)
      (appendWritten (indices.encode part.descriptor.id)
        (encodeAttributes indices part.attributes))) := by
  simp only [encode, appendWritten, bind_assoc, pure_bind, List.append_assoc]
  rfl

/-- The attributes of a member that was written fit the format. -/
theorem attributesFit_of_encode {indices : Indices} {part : Member carrier}
    (hwrite : ∃ bytes, part.encode indices = .ok bytes) : AttributesFit part.attributes := by
  obtain ⟨written, hwritten⟩ := hwrite
  simp only [encode_eq, appendWritten_eq_ok_iff] at hwritten
  obtain ⟨-, -, -, ⟨-, -, -, ⟨-, rest, -, hattributes, -⟩, -⟩, -⟩ := hwritten
  exact ClassFormat.attributesFit_of_encode hattributes

/-- A member that was read is written as the same bytes, as far as its attributes are. -/
theorem rewrites_read {pool : Pool} {indices : Indices} (h : pool.LaidOut indices) :
    (Member.read pool : Reader (Member carrier)).Rewrites (Sound pool)
      (fun part => AttributesFit part.attributes) (Member.encode indices) := by
  have hutf8 := h.takes_readUtf8.rewrites
  rw [read_eq]
  exact ((Reader.takes_flags carrier).rewrites.pair
    (hutf8.pair (hutf8.pair (rewrites_readAttributes h)))).map
    (fun _ hgood => ⟨hgood.2.1, hgood.2.2.1, hgood.2.2.2⟩)
    (fun _ => by simp only [true_and]; rfl) fun _ => encode_eq ..

/-- A member that was written is read as the same one, with handles of the other pool. -/
theorem rereads_read {pool again : Pool} {indices later : Indices}
    (h : again.Mirrors indices later pool) :
    (Member.read again : Reader (Member carrier)).Rereads (Sound pool) (Member.encode indices)
      (Member.mapJoined (again.counterpart indices)) := by
  have hutf8 := h.rereads_readUtf8
  rw [read_eq]
  exact ((Reader.takes_flags carrier).rereads_self.pair
    (hutf8.pair (hutf8.pair (rereads_readAttributes h)))).map _
    (fun part => (part.flags, part.name, part.descriptor, part.attributes))
    (fun _ hgood => ⟨trivial, hgood.name_keeps, hgood.descriptor_keeps, hgood.attributes⟩)
    (fun _ => encode_eq ..) fun _ _ => rfl

end Member

/-- A version is read of its four bytes. -/
theorem Version.reads_read_iff {version : Version} {input rest : Bytes} {notices : List Notice} :
    Version.read.Reads input version rest notices
      ↔ input = version.encode ++ rest ∧ notices = [] := by
  simp only [read, encode, Reader.reads_bind, Reader.reads_u16, Reader.reads_pure,
    List.append_assoc]
  constructor
  · rintro ⟨minor, _, _, _, ⟨rfl, rfl⟩, ⟨major, _, _, _, ⟨rfl, rfl⟩, ⟨rfl, rfl, rfl⟩, rfl⟩, rfl⟩
    exact ⟨rfl, rfl⟩
  · rintro ⟨rfl, rfl⟩
    exact ⟨version.minor, _, [], [], ⟨rfl, rfl⟩, ⟨version.major, rest, [], [], ⟨rfl, rfl⟩,
      ⟨rfl, rfl, rfl⟩, rfl⟩, rfl⟩

namespace ClassFile

/-- What a class is made of behind its pool, in the order of the file. -/
abbrev Parts : Type :=
  ClassFlags × ClassId × Option ClassId × List ClassId × List Field × List Method × List Attribute

def parts (file : ClassFile) : Parts :=
  (file.flags, file.thisClass, file.superClass, file.interfaces, file.fields, file.methods,
    file.attributes)

/-- The class with these parts behind its pool. -/
def ofParts (version : Version) (constants : Pool) (parts : Parts) : ClassFile where
  version
  constants
  flags := parts.1
  thisClass := parts.2.1
  superClass := parts.2.2.1
  interfaces := parts.2.2.2.1
  fields := parts.2.2.2.2.1
  methods := parts.2.2.2.2.2.1
  attributes := parts.2.2.2.2.2.2

/-- Read the parts of a class with its pool. -/
def readParts (pool : Pool) : Reader Parts :=
  AccessFlags.read.pair (pool.readClass.pair (pool.readOptionalClass.pair
    ((Reader.sequence pool.readClass).pair ((Reader.sequence (Member.read pool)).pair
      ((Reader.sequence (Member.read pool)).pair (readAttributes pool))))))

/-- The bytes of the parts. -/
def encodeParts (indices : Indices) (parts : Parts) : Except Error Bytes :=
  appendWritten (.ok parts.1.encode) (appendWritten (indices.encode parts.2.1.id)
    (appendWritten (indices.encodeOptionalClass parts.2.2.1)
      (appendWritten
        (encodeCounted .sequenceLength (fun id => indices.encode id.id) parts.2.2.2.1)
        (appendWritten
          (encodeCounted .sequenceLength (Member.encode indices) parts.2.2.2.2.1)
          (appendWritten
            (encodeCounted .sequenceLength (Member.encode indices) parts.2.2.2.2.2.1)
            (encodeAttributes indices parts.2.2.2.2.2.2))))))

/-- A class is its version, its pool and its parts. -/
theorem readContents_eq (tag : PoolTag) : readContents tag = (do
    let version ← Version.read
    let constants ← Pool.read tag
    ofParts version constants <$> readParts constants) := by
  simp only [readContents, readParts, ofParts, Reader.pair, map_bind, map_pure, bind_assoc,
    pure_bind]

/-- A class is written as its header and pool, and then its parts. -/
theorem encode_eq (file : ClassFile) : file.encode = (do
    let (constants, indices) ← file.constants.encode
    appendWritten (.ok (BigEndian.u32 magic ++ file.version.encode ++ constants))
      (encodeParts indices file.parts)) := by
  simp only [encode, encodeParts, parts, appendWritten, encodeSequence_eq, bind_assoc, pure_bind,
    List.append_assoc]
  rfl

end ClassFile

end ClassFormat
