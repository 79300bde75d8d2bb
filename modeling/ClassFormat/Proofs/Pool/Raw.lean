import ClassFormat.Pool.Indices
import ClassFormat.Pool.Read
import ClassFormat.Proofs.Reading
import ClassFormat.Proofs.Text
import ClassFormat.Proofs.Writing
/-!
# Constants as bytes

Between a constant and its bytes stands the constant with its references as indices. Such a raw
constant is `Canonical` if it is one that reading makes: its text is short enough to be written, and
is a string if its surrogates pair up. A reader takes exactly the canonical raw constants off their
bytes (`RawConstant.reads_read_iff`), and writing a constant is writing its raw form
(`Constant.encode_eq_ok_iff`).
-/

namespace ClassFormat

open Text

namespace RawConstant

/-- Bytes of a text behind their number. -/
def textBytes (units : List UInt16) : Bytes :=
  BigEndian.encode 2 (ModifiedUtf8.encode units).length ++ ModifiedUtf8.encode units

/-- Whether the number of bytes of a text fits its field. -/
def TextFits (units : List UInt16) : Prop := (ModifiedUtf8.encode units).length < 2 ^ 16

/-- What follows the tag of a raw constant. -/
def body : RawConstant → Bytes
  | leaf (.utf8 text) => textBytes (Utf16.ofString text)
  | leaf (.utf16 units) => textBytes units
  | leaf (.integer value) => BigEndian.i32 value
  | leaf (.float bits) => BigEndian.u32 bits
  | leaf (.long value) => BigEndian.i64 value
  | leaf (.double bits) => BigEndian.u64 bits
  | leaf _ => []
  | classInfo index | string index | methodType index | moduleInfo index | packageInfo index =>
    BigEndian.u16 index
  | fieldRef first second | methodRef first second | interfaceMethodRef first second
  | nameAndType first second | dynamic first second | invokeDynamic first second =>
    BigEndian.u16 first ++ BigEndian.u16 second
  | methodHandle kind reference => BigEndian.u8 kind.number ++ BigEndian.u16 reference

/-- The bytes of a raw constant. -/
def bytes (raw : RawConstant) : Bytes := BigEndian.u8 raw.tag ++ raw.body

/-- Whether a raw constant is one that reading makes. -/
def Canonical : RawConstant → Prop
  | leaf (.utf8 text) => TextFits (Utf16.ofString text)
  | leaf (.utf16 units) => TextFits units ∧ Utf16.toString? units = none
  | leaf constant => constant.references = []
  | _ => True

/-- The notices that reading a raw constant at an index leaves. -/
def notices (index : UInt16) : RawConstant → List Notice
  | leaf (.utf16 _) => [.unpairedSurrogates index]
  | _ => []

end RawConstant

open RawConstant

/-- Numbers of kinds are read back. -/
theorem HandleKind.ofNumber_eq_ok_iff {number : UInt8} {kind : HandleKind} :
    HandleKind.ofNumber number = .ok kind ↔ number = kind.number := by
  constructor
  · intro h
    unfold HandleKind.ofNumber at h
    split at h <;> cases h <;> rfl
  · rintro rfl
    cases kind <;> rfl

namespace RawConstant

variable {index : UInt16} {input rest : Bytes} {raw : RawConstant} {noted : List Notice}

/-- Reading the bytes of a text takes its units, and makes them a string if that is possible. -/
theorem reads_textBytes_iff {α : Type} {next : List UInt16 → Reader α} {found : α} :
    (do
      let length ← Reader.u16
      let bytes ← Reader.block length.toNat
      match ModifiedUtf8.decode bytes with
      | none => Reader.fail (.invalidModifiedUtf8 index)
      | some units => next units : Reader α).Reads input found rest noted
    ↔ ∃ units middle, TextFits units ∧ input = textBytes units ++ middle
      ∧ (next units).Reads middle found rest noted := by
  simp only [Reader.reads_bind, Reader.reads_u16, Reader.reads_block]
  constructor
  · rintro ⟨length, _, _, _, ⟨rfl, rfl⟩, ⟨bytes, middle, _, _, ⟨rfl, hlength, rfl⟩, hnext, rfl⟩,
      rfl⟩
    split at hnext
    · exact absurd hnext Reader.reads_fail
    · rename_i units hdecode
      rw [ModifiedUtf8.decode_eq_some_iff] at hdecode
      subst hdecode
      refine ⟨units, middle, ?_, ?_, hnext⟩
      · rw [TextFits, hlength]
        exact length.toNat_lt
      · rw [textBytes, hlength, ← BigEndian.u16, List.append_assoc]
  · rintro ⟨units, middle, hfits, rfl, hnext⟩
    have hlength := UInt16.toNat_ofNat_of_lt' hfits
    refine ⟨UInt16.ofNat (ModifiedUtf8.encode units).length, _, _, _, ⟨?_, rfl⟩,
      ⟨ModifiedUtf8.encode units, middle, _, _, ⟨rfl, hlength.symm, rfl⟩, ?_, rfl⟩, rfl⟩
    · rw [textBytes, BigEndian.encode_two_of_lt hfits, List.append_assoc]
    · rw [ModifiedUtf8.decode_eq_some_iff.mpr rfl]
      exact hnext

/-- A text is read of its length and its bytes. -/
theorem reads_readText_iff : (readText index).Reads input raw rest noted
    ↔ raw.tag = .utf8 ∧ raw.Canonical ∧ input = raw.body ++ rest ∧ noted = raw.notices index := by
  refine Iff.trans reads_textBytes_iff ?_
  constructor
  · rintro ⟨units, middle, hfits, rfl, hnext⟩
    split at hnext
    · rename_i text htext
      rw [Utf16.toString?_eq_some_iff] at htext
      subst htext
      obtain ⟨rfl, rfl, rfl⟩ := Reader.reads_pure.mp hnext
      exact ⟨rfl, hfits, rfl, rfl⟩
    · rename_i htext
      obtain ⟨_, _, _, _, hnote, hpure, rfl⟩ := Reader.reads_bind.mp hnext
      obtain ⟨rfl, rfl⟩ := Reader.reads_note.mp hnote
      obtain ⟨rfl, rfl, rfl⟩ := Reader.reads_pure.mp hpure
      exact ⟨rfl, ⟨hfits, htext⟩, rfl, rfl⟩
  · rintro ⟨htag, hcanonical, rfl, rfl⟩
    cases raw with
    | leaf constant =>
      cases constant with
      | utf8 text =>
        refine ⟨Utf16.ofString text, rest, hcanonical, rfl, ?_⟩
        rw [Utf16.toString?_eq_some_iff.mpr rfl]
        exact Reader.reads_pure.mpr ⟨rfl, rfl, rfl⟩
      | utf16 units =>
        refine ⟨units, rest, hcanonical.1, rfl, ?_⟩
        rw [hcanonical.2]
        exact Reader.reads_bind.mpr ⟨(), _, _, _, Reader.reads_note.mpr ⟨rfl, rfl⟩,
          Reader.reads_pure.mpr ⟨rfl, rfl, rfl⟩, rfl⟩
      | _ => exact absurd htag (by simp [tag, Constant.tag]; decide)
    | _ => exact absurd htag (by simp [tag]; decide)

/-- A pair is read of two numbers of 16 bits. -/
theorem reads_readPair_iff {make : UInt16 → UInt16 → RawConstant} :
    (readPair make).Reads input raw rest noted ↔ ∃ first second, raw = make first second
      ∧ input = BigEndian.u16 first ++ BigEndian.u16 second ++ rest ∧ noted = [] := by
  simp only [readPair, Reader.reads_bind, Reader.reads_u16, Reader.reads_pure]
  constructor
  · rintro ⟨first, _, _, _, ⟨rfl, rfl⟩, ⟨second, _, _, _, ⟨rfl, rfl⟩, ⟨rfl, rfl, rfl⟩, rfl⟩, rfl⟩
    exact ⟨first, second, rfl, (List.append_assoc ..).symm, rfl⟩
  · rintro ⟨first, second, rfl, rfl, rfl⟩
    exact ⟨first, _, _, _, ⟨List.append_assoc .., rfl⟩,
      ⟨second, _, _, _, ⟨rfl, rfl⟩, ⟨rfl, rfl, rfl⟩, rfl⟩, rfl⟩

/-- A method handle is read of the number of its kind and an index. -/
theorem reads_readHandle_iff :
    (do
      let number ← Reader.u8
      let kind ← Reader.ofExcept (HandleKind.ofNumber number)
      methodHandle kind <$> Reader.u16 : Reader RawConstant).Reads input raw rest noted
    ↔ ∃ kind reference, raw = .methodHandle kind reference
      ∧ input = BigEndian.u8 kind.number ++ BigEndian.u16 reference ++ rest ∧ noted = [] := by
  simp only [Reader.reads_bind, Reader.reads_u8, Reader.reads_ofExcept, Reader.reads_map,
    Reader.reads_u16, HandleKind.ofNumber_eq_ok_iff]
  constructor
  · rintro ⟨_, _, _, _, ⟨rfl, rfl⟩, ⟨kind, _, _, _, ⟨rfl, rfl, rfl⟩, ⟨reference, ⟨rfl, rfl⟩, rfl⟩,
      rfl⟩, rfl⟩
    exact ⟨kind, reference, rfl, (List.append_assoc ..).symm, rfl⟩
  · rintro ⟨kind, reference, rfl, rfl, rfl⟩
    exact ⟨kind.number, _, _, _, ⟨List.append_assoc .., rfl⟩, ⟨kind, _, _, _, ⟨rfl, rfl, rfl⟩,
      ⟨reference, ⟨rfl, rfl⟩, rfl⟩, rfl⟩, rfl⟩

/-- A constant that was read is canonical, and its bytes are those that were taken. -/
theorem canonical_of_reads (h : (read index).Reads input raw rest noted) :
    raw.Canonical ∧ input = raw.bytes ++ rest ∧ noted = raw.notices index := by
  rw [read, Reader.reads_bind] at h
  obtain ⟨number, middle, _, noted, htag, hbody, rfl⟩ := h
  obtain ⟨rfl, rfl⟩ := Reader.reads_u8.mp htag
  have hbytes {body : Bytes} (hnumber : raw.tag = number) (hmiddle : middle = body ++ rest)
      (hraw : raw.body = body) : BigEndian.u8 number ++ middle = raw.bytes ++ rest := by
    rw [bytes, hnumber, hmiddle, hraw, List.append_assoc]
  split at hbody
  -- Text, and a number that is no tag.
  case h_1 =>
    obtain ⟨hnumber, hcanonical, hmiddle, hnoted⟩ := reads_readText_iff.mp hbody
    exact ⟨hcanonical, hbytes hnumber hmiddle rfl, hnoted⟩
  case h_18 => exact absurd hbody Reader.reads_fail
  all_goals
    simp only [Reader.reads_map, Reader.reads_i32, Reader.reads_u32, Reader.reads_i64,
      Reader.reads_u64, Reader.reads_u16, reads_readPair_iff, reads_readHandle_iff] at hbody
  -- Numbers.
  case h_2 | h_3 | h_4 | h_5 =>
    obtain ⟨_, ⟨value, ⟨rfl, rfl⟩, rfl⟩, rfl⟩ := hbody
    exact ⟨rfl, hbytes rfl rfl rfl, rfl⟩
  -- Two fields.
  case h_8 | h_9 | h_10 | h_11 | h_12 | h_14 | h_15 =>
    obtain ⟨first, second, rfl, rfl, rfl⟩ := hbody
    exact ⟨trivial, hbytes rfl rfl rfl, rfl⟩
  -- One index.
  all_goals
    obtain ⟨reference, ⟨rfl, rfl⟩, rfl⟩ := hbody
    exact ⟨trivial, hbytes rfl rfl rfl, rfl⟩

/-- A canonical raw constant is read off its bytes. -/
theorem reads_bytes (hcanonical : raw.Canonical) :
    (read index).Reads (raw.bytes ++ rest) raw rest (raw.notices index) := by
  rw [read, bytes, List.append_assoc]
  refine Reader.reads_bind.mpr
    ⟨raw.tag, raw.body ++ rest, [], _, Reader.reads_u8.mpr ⟨rfl, rfl⟩, ?_, rfl⟩
  have hpair {make : UInt16 → UInt16 → RawConstant} (first second : UInt16) :
      (readPair make).Reads (BigEndian.u16 first ++ BigEndian.u16 second ++ rest)
        (make first second) rest [] :=
    reads_readPair_iff.mpr ⟨first, second, rfl, rfl, rfl⟩
  have hindex {make : UInt16 → RawConstant} (reference : UInt16) :
      (make <$> Reader.u16).Reads (BigEndian.u16 reference ++ rest) (make reference) rest [] :=
    Reader.reads_map.mpr ⟨reference, Reader.reads_u16.mpr ⟨rfl, rfl⟩, rfl⟩
  cases raw with
  | leaf constant =>
    cases constant with
    | utf8 text => exact reads_readText_iff.mpr ⟨rfl, hcanonical, rfl, rfl⟩
    | utf16 units => exact reads_readText_iff.mpr ⟨rfl, hcanonical, rfl, rfl⟩
    | integer value =>
      exact Reader.reads_map.mpr ⟨_, Reader.reads_map.mpr
        ⟨value, Reader.reads_i32.mpr ⟨rfl, rfl⟩, rfl⟩, rfl⟩
    | float bits =>
      exact Reader.reads_map.mpr ⟨_, Reader.reads_map.mpr
        ⟨bits, Reader.reads_u32.mpr ⟨rfl, rfl⟩, rfl⟩, rfl⟩
    | long value =>
      exact Reader.reads_map.mpr ⟨_, Reader.reads_map.mpr
        ⟨value, Reader.reads_i64.mpr ⟨rfl, rfl⟩, rfl⟩, rfl⟩
    | double bits =>
      exact Reader.reads_map.mpr ⟨_, Reader.reads_map.mpr
        ⟨bits, Reader.reads_u64.mpr ⟨rfl, rfl⟩, rfl⟩, rfl⟩
    | _ => simp [Canonical, Constant.references] at hcanonical
  | fieldRef first second => exact hpair first second
  | methodRef first second => exact hpair first second
  | interfaceMethodRef first second => exact hpair first second
  | nameAndType first second => exact hpair first second
  | dynamic first second => exact hpair first second
  | invokeDynamic first second => exact hpair first second
  | methodHandle kind reference => exact reads_readHandle_iff.mpr ⟨kind, reference, rfl, rfl, rfl⟩
  | classInfo reference => exact hindex reference
  | string reference => exact hindex reference
  | methodType reference => exact hindex reference
  | moduleInfo reference => exact hindex reference
  | packageInfo reference => exact hindex reference

/-- A reader takes exactly the canonical raw constants off their bytes. -/
theorem reads_read_iff : (read index).Reads input raw rest noted
    ↔ raw.Canonical ∧ input = raw.bytes ++ rest ∧ noted = raw.notices index := by
  constructor
  · exact canonical_of_reads
  · rintro ⟨hcanonical, rfl, rfl⟩
    exact reads_bytes hcanonical

end RawConstant

/-! ## Writing a constant -/

namespace Constant

variable {indices : Indices} {constant : Constant} {written : Bytes}

/-- The constant that reading makes of a text. -/
def ofUnits (units : List UInt16) : Constant :=
  match Utf16.toString? units with
  | some text => .utf8 text
  | none => .utf16 units

/-- A constant with its references as indices, and its text as reading would make it. -/
def toRaw (indices : Indices) : Constant → Except Error RawConstant
  | utf16 units => return .leaf (ofUnits units)
  | classInfo name => RawConstant.classInfo <$> indices.indexOf name.id
  | string text => RawConstant.string <$> indices.indexOf text.id
  | fieldRef owner member =>
    return .fieldRef (← indices.indexOf owner.id) (← indices.indexOf member.id)
  | methodRef owner member =>
    return .methodRef (← indices.indexOf owner.id) (← indices.indexOf member.id)
  | interfaceMethodRef owner member =>
    return .interfaceMethodRef (← indices.indexOf owner.id) (← indices.indexOf member.id)
  | nameAndType name descriptor =>
    return .nameAndType (← indices.indexOf name.id) (← indices.indexOf descriptor.id)
  | methodHandle kind reference => RawConstant.methodHandle kind <$> indices.indexOf reference
  | methodType descriptor => RawConstant.methodType <$> indices.indexOf descriptor.id
  | dynamic bootstrap member => RawConstant.dynamic bootstrap <$> indices.indexOf member.id
  | invokeDynamic bootstrap member =>
    RawConstant.invokeDynamic bootstrap <$> indices.indexOf member.id
  | moduleInfo name => RawConstant.moduleInfo <$> indices.indexOf name.id
  | packageInfo name => RawConstant.packageInfo <$> indices.indexOf name.id
  | constant => return .leaf constant

/-- A text has the same bytes in both of its forms. -/
theorem body_ofUnits (units : List UInt16) : (leaf (ofUnits units)).body = textBytes units := by
  rw [ofUnits]
  split
  · rename_i text htext
    rw [Utf16.toString?_eq_some_iff] at htext
    rw [body, htext]
  · rfl

/-- A text is canonical if its bytes can be counted. -/
theorem canonical_ofUnits (units : List UInt16) :
    (leaf (ofUnits units)).Canonical ↔ TextFits units := by
  rw [ofUnits]
  split
  · rename_i text htext
    rw [Utf16.toString?_eq_some_iff] at htext
    rw [Canonical, htext]
  · rename_i htext
    exact and_iff_left htext

/-- A text has the same tag and takes one index, whichever of both forms it has. -/
theorem tag_width_ofUnits (units : List UInt16) :
    (ofUnits units).tag = .utf8 ∧ width (ofUnits units) = 1 := by
  rw [ofUnits]
  split <;> exact ⟨rfl, rfl⟩

/-- A text is written unless it is too long to be counted. -/
theorem encodeText_eq_ok_iff {units : List UInt16} :
    encodeText units = .ok written ↔ TextFits units ∧ written = textBytes units :=
  ite_eq_ok_iff

/-- A handle is written as the index that the snapshot has for it. -/
theorem encode_index_eq_ok_iff {id : ConstantId} : indices.encode id = .ok written
    ↔ ∃ index, indices.indexOf id = .ok index ∧ written = BigEndian.u16 index := by
  simp only [Indices.encode, map_eq_ok_iff]
  simp only [eq_comm]

/-- The raw form of a constant has its tag and its room. -/
theorem tag_width_of_toRaw {raw : RawConstant} (h : constant.toRaw indices = .ok raw) :
    raw.tag = constant.tag ∧ width raw = width constant := by
  cases constant
  all_goals simp only [toRaw, bind_eq_ok_iff, map_eq_ok_iff, pure_eq_ok_iff] at h
  case utf16 units =>
    subst h
    exact tag_width_ofUnits units
  case fieldRef | methodRef | interfaceMethodRef | nameAndType =>
    obtain ⟨_, -, _, -, rfl⟩ := h
    exact ⟨rfl, rfl⟩
  case utf8 | integer | float | long | double =>
    subst h
    exact ⟨rfl, rfl⟩
  all_goals
    obtain ⟨_, -, rfl⟩ := h
    exact ⟨rfl, rfl⟩

/-- What follows the tag of a constant is what follows that of its raw form. -/
theorem encodeBody_eq_ok_iff : constant.encodeBody indices = .ok written
    ↔ ∃ raw, constant.toRaw indices = .ok raw ∧ raw.Canonical ∧ written = raw.body := by
  cases constant
  all_goals
    simp only [encodeBody, toRaw, bind_eq_ok_iff, map_eq_ok_iff, pure_eq_ok_iff,
      encodeText_eq_ok_iff, encode_index_eq_ok_iff, exists_eq_left']
  case utf8 => rfl
  case utf16 units => rw [canonical_ofUnits, body_ofUnits]
  case integer | float | long | double =>
    constructor
    · intro h
      cases h
      exact ⟨rfl, rfl⟩
    · rintro ⟨-, rfl⟩
      rfl
  case fieldRef | methodRef | interfaceMethodRef | nameAndType =>
    constructor
    · rintro ⟨_, ⟨first, hfirst, rfl⟩, _, ⟨second, hsecond, rfl⟩, rfl⟩
      exact ⟨_, ⟨first, hfirst, second, hsecond, rfl⟩, trivial, rfl⟩
    · rintro ⟨_, ⟨first, hfirst, second, hsecond, rfl⟩, -, rfl⟩
      exact ⟨_, ⟨first, hfirst, rfl⟩, _, ⟨second, hsecond, rfl⟩, rfl⟩
  case methodHandle | dynamic | invokeDynamic =>
    constructor
    · rintro ⟨_, ⟨index, hindex, rfl⟩, rfl⟩
      exact ⟨_, ⟨index, hindex, rfl⟩, trivial, rfl⟩
    · rintro ⟨_, ⟨index, hindex, rfl⟩, -, rfl⟩
      exact ⟨_, ⟨index, hindex, rfl⟩, rfl⟩
  all_goals
    constructor
    · rintro ⟨index, hindex, rfl⟩
      exact ⟨_, ⟨index, hindex, rfl⟩, trivial, rfl⟩
    · rintro ⟨_, ⟨index, hindex, rfl⟩, -, rfl⟩
      exact ⟨index, hindex, rfl⟩

/-- Writing a constant is writing its raw form. -/
theorem encode_eq_ok_iff : constant.encode indices = .ok written
    ↔ ∃ raw, constant.toRaw indices = .ok raw ∧ raw.Canonical ∧ written = raw.bytes := by
  simp only [encode, bind_eq_ok_iff, pure_eq_ok_iff, encodeBody_eq_ok_iff]
  constructor
  · rintro ⟨_, ⟨raw, hraw, hcanonical, rfl⟩, rfl⟩
    exact ⟨raw, hraw, hcanonical, by rw [bytes, (tag_width_of_toRaw hraw).1]⟩
  · rintro ⟨raw, hraw, hcanonical, rfl⟩
    exact ⟨raw.body, ⟨raw, hraw, hcanonical, rfl⟩, by rw [bytes, (tag_width_of_toRaw hraw).1]⟩

end Constant

/-! ## Indices and handles -/

namespace RawConstant

variable {lookup : Lookup} {raw : RawConstant} {constant : Constant}

/-- An index is resolved as one of a text if it is found with that tag. -/
theorem resolveUtf8_eq_ok_iff {index : UInt16} {id : Utf8Id} :
    resolveUtf8 lookup index = .ok id ↔ lookup [.utf8] .utf8 index = .ok id.id := by
  rw [resolveUtf8, map_eq_ok_iff]
  constructor
  · rintro ⟨_, h, rfl⟩
    exact h
  · intro h
    exact ⟨_, h, rfl⟩

/-- An index is resolved as one of a class if it is found with that tag. -/
theorem resolveClass_eq_ok_iff {index : UInt16} {id : ClassId} :
    resolveClass lookup index = .ok id ↔ lookup [.classInfo] .classInfo index = .ok id.id := by
  rw [resolveClass, map_eq_ok_iff]
  constructor
  · rintro ⟨_, h, rfl⟩
    exact h
  · intro h
    exact ⟨_, h, rfl⟩

/-- An index is resolved as one of a name with a descriptor if it is found with that tag. -/
theorem resolveMember_eq_ok_iff {index : UInt16} {id : NameAndTypeId} :
    resolveMember lookup index = .ok id
      ↔ lookup [.nameAndType] .nameAndType index = .ok id.id := by
  rw [resolveMember, map_eq_ok_iff]
  constructor
  · rintro ⟨_, h, rfl⟩
    exact h
  · intro h
    exact ⟨_, h, rfl⟩

/-- The kind and the room of a constant are known before its references are. -/
theorem tag_width_of_resolve (h : raw.resolve lookup = .ok constant) :
    constant.tag = raw.tag ∧ width constant = width raw := by
  cases raw
  all_goals simp only [resolve, bind_eq_ok_iff, pure_eq_ok_iff] at h
  case leaf =>
    cases h
    exact ⟨rfl, rfl⟩
  case fieldRef | methodRef | interfaceMethodRef | nameAndType =>
    obtain ⟨_, -, _, -, rfl⟩ := h
    exact ⟨rfl, rfl⟩
  all_goals
    obtain ⟨_, -, rfl⟩ := h
    exact ⟨rfl, rfl⟩

/-- Turning the indices of a constant into handles and back gives what was there. -/
theorem toRaw_of_resolve {indices : Indices} (h : raw.resolve lookup = .ok constant)
    (hcanonical : raw.Canonical)
    (hlookup : ∀ tags role index id, lookup tags role index = .ok id →
      indices.indexOf id = .ok index) :
    constant.toRaw indices = .ok raw := by
  cases raw
  all_goals
    simp only [resolve, bind_eq_ok_iff, pure_eq_ok_iff, resolveUtf8_eq_ok_iff,
      resolveClass_eq_ok_iff, resolveMember_eq_ok_iff] at h
  case leaf found =>
    cases h
    cases constant with
    | utf16 units =>
      rw [Constant.toRaw, Constant.ofUnits, hcanonical.2]
      rfl
    | utf8 | integer | float | long | double => rfl
    | _ => simp [Canonical, Constant.references] at hcanonical
  case fieldRef | methodRef | interfaceMethodRef | nameAndType =>
    obtain ⟨_, hfirst, _, hsecond, rfl⟩ := h
    rw [Constant.toRaw, hlookup _ _ _ _ hfirst, hlookup _ _ _ _ hsecond]
    rfl
  all_goals
    obtain ⟨_, hindex, rfl⟩ := h
    rw [Constant.toRaw, hlookup _ _ _ _ hindex]
    rfl

end RawConstant

end ClassFormat
