import ClassFormat.Code.Handler
import ClassFormat.Proofs.Codec
import ClassFormat.Proofs.Pool.Index
/-!
# Reading and writing handles

A handle is written as the index of its constant and read by looking the index up, and the kind of
constant that has to stand there is checked. In a pool that has been laid out the two belong
together: a reader takes exactly the handles on constants of the wanted kinds, each off its index.

`again.Mirrors indices later pool` says that two pools have the same constants at the same indices.
Then a handle that is written in one pool is read in the other as its `counterpart`, the handle on
the constant at the same index.
-/

namespace ClassFormat

/-- A valid pool with a snapshot of its indices. -/
structure Pool.LaidOut (pool : Pool) (indices : Indices) : Prop where
  valid : pool.Valid
  resolve_eq : pool.resolve = .ok indices

/-- If a pool gave a handle out, it did so on a constant with one of these tags. -/
def Pool.Keeps (pool : Pool) (tags : List ConstantTag) (id : ConstantId) : Prop :=
  ∀ constant, pool.constant id = .ok constant → constant.tag ∈ tags

/-- A handle takes two bytes. -/
theorem Indices.length_encode {indices : Indices} {id : ConstantId} {written : Bytes}
    (hwrite : indices.encode id = .ok written) : written.length = 2 := by
  obtain ⟨index, -, rfl⟩ := map_eq_ok_iff.mp hwrite
  exact BigEndian.length_u16 index

namespace Pool.LaidOut

variable {pool : Pool} {indices : Indices} {id : ConstantId} {index : UInt16}

/-- In a pool with indices, an index leads to a handle exactly if the handle has that index. -/
theorem idAt_iff (h : pool.LaidOut indices) :
    pool.idAt index = .ok id ↔ indices.indexOf id = .ok index :=
  h.valid.idAt_iff_indexOf h.resolve_eq

/-- A handle that has an index leads to a constant. -/
theorem exists_constant (h : pool.LaidOut indices) (hindex : indices.indexOf id = .ok index) :
    ∃ constant, pool.constant id = .ok constant := by
  have hstands := (h.valid.indexOf_eq_ok_iff h.resolve_eq).mp hindex
  exact exists_constant_iff.mpr (h.valid.exists_stands_iff.mp ⟨_, hstands⟩)

/-- No handle has index 0. -/
theorem index_ne_zero (h : pool.LaidOut indices) (hindex : indices.indexOf id = .ok index) :
    index ≠ 0 := by
  rintro rfl
  obtain ⟨constant, hconstant⟩ := h.exists_constant hindex
  have hstands := (h.valid.indexOf_eq_ok_iff h.resolve_eq).mp hindex
  exact absurd (h.valid.stands_add_width_le hstands hconstant).1 (Nat.lt_irrefl 0)

/-- An index is found with some tags exactly if it is that of a handle on one of these kinds. -/
theorem idWithTag_iff (h : pool.LaidOut indices) {tags : List ConstantTag} {role : ConstantRole} :
    pool.idWithTag tags role index = .ok id
      ↔ indices.indexOf id = .ok index ∧ pool.Keeps tags id := by
  simp only [idWithTag, bind_eq_ok_iff]
  constructor
  · rintro ⟨found, hfound, constant, hconstant, hid⟩
    split at hid
    · rename_i htag
      cases hid
      refine ⟨h.idAt_iff.mp hfound, fun other hother => ?_⟩
      rw [hconstant] at hother
      cases hother
      exact htag
    · cases hid
  · rintro ⟨hindex, hkeeps⟩
    obtain ⟨constant, hconstant⟩ := h.exists_constant hindex
    refine ⟨id, h.idAt_iff.mpr hindex, constant, hconstant, ?_⟩
    rw [if_pos (hkeeps constant hconstant)]
    rfl

/-- An index is that of a text exactly if it is that of a handle on one. -/
theorem utf8At_iff (h : pool.LaidOut indices) {name : Utf8Id} : pool.utf8At index = .ok name
    ↔ indices.indexOf name.id = .ok index ∧ pool.Keeps [.utf8] name.id := by
  rw [utf8At, map_eq_ok_iff]
  constructor
  · rintro ⟨id, hid, rfl⟩
    exact h.idWithTag_iff.mp hid
  · intro hid
    exact ⟨name.id, h.idWithTag_iff.mpr hid, rfl⟩

/-! ## Readers of handles -/

/-- Reading an index with some tags takes the handles that are written as it. -/
theorem takes_idWithTag (h : pool.LaidOut indices) (tags : List ConstantTag)
    (role : ConstantRole) :
    (Reader.u16 >>= fun index => Reader.ofExcept (pool.idWithTag tags role index)).Takes
      (pool.Keeps tags) indices.encode := by
  constructor
  intro input id rest notices
  simp only [Reader.reads_bind, Reader.reads_u16, Reader.reads_ofExcept, h.idWithTag_iff,
    Indices.encode, map_eq_ok_iff]
  constructor
  · rintro ⟨index, _, _, _, ⟨rfl, rfl⟩, ⟨⟨hindex, hkeeps⟩, rfl, rfl⟩, rfl⟩
    exact ⟨rfl, hkeeps, _, ⟨index, hindex, rfl⟩, rfl⟩
  · rintro ⟨rfl, hkeeps, _, ⟨index, hindex, rfl⟩, rfl⟩
    exact ⟨index, rest, [], [], ⟨rfl, rfl⟩, ⟨⟨hindex, hkeeps⟩, rfl, rfl⟩, rfl⟩

/-- Reading a handle takes what the handle is written as. -/
theorem takes_readId (h : pool.LaidOut indices) :
    pool.readId.Takes (fun _ => True) indices.encode := by
  constructor
  intro input id rest notices
  simp only [readId, Reader.reads_bind, Reader.reads_u16, Reader.reads_ofExcept, h.idAt_iff,
    Indices.encode, map_eq_ok_iff]
  constructor
  · rintro ⟨index, _, _, _, ⟨rfl, rfl⟩, ⟨hindex, rfl, rfl⟩, rfl⟩
    exact ⟨rfl, trivial, _, ⟨index, hindex, rfl⟩, rfl⟩
  · rintro ⟨rfl, -, _, ⟨index, hindex, rfl⟩, rfl⟩
    exact ⟨index, rest, [], [], ⟨rfl, rfl⟩, ⟨hindex, rfl, rfl⟩, rfl⟩

/-- Reading a handle on a text takes what such a handle is written as. -/
theorem takes_readUtf8 (h : pool.LaidOut indices) :
    pool.readUtf8.Takes (fun id => pool.Keeps [.utf8] id.id) (fun id => indices.encode id.id) := by
  have heq : pool.readUtf8 = Utf8Id.mk <$> (Reader.u16 >>= fun index =>
      Reader.ofExcept (pool.idWithTag [.utf8] .utf8 index)) := by
    simp only [readUtf8, utf8At, Reader.ofExcept_map, map_bind]
  rw [heq]
  exact Reader.Takes.map (h.takes_idWithTag _ _) Utf8Id.id (fun _ => rfl) (fun _ => rfl)

/-- Reading a handle on a class takes what such a handle is written as. -/
theorem takes_readClass (h : pool.LaidOut indices) :
    pool.readClass.Takes (fun id => pool.Keeps [.classInfo] id.id)
      (fun id => indices.encode id.id) := by
  have heq : pool.readClass = ClassId.mk <$> (Reader.u16 >>= fun index =>
      Reader.ofExcept (pool.idWithTag [.classInfo] .classInfo index)) := by
    simp only [readClass, classAt, Reader.ofExcept_map, map_bind]
  rw [heq]
  exact Reader.Takes.map (h.takes_idWithTag _ _) ClassId.id (fun _ => rfl) (fun _ => rfl)

/-- A handle is written as its index. -/
theorem encode_eq_ok_iff {written : Bytes} : indices.encode id = .ok written
    ↔ ∃ index, indices.indexOf id = .ok index ∧ written = BigEndian.u16 index :=
  Constant.encode_index_eq_ok_iff

/-- Index 0 stands for no class, and no constant has it. -/
theorem takes_readOptionalClass (h : pool.LaidOut indices) :
    pool.readOptionalClass.Takes (fun id? => ∀ id ∈ id?, pool.Keeps [.classInfo] id.id)
      indices.encodeOptionalClass := by
  constructor
  intro input id? rest notices
  rw [readOptionalClass, Reader.reads_bind]
  constructor
  · rintro ⟨index, _, _, _, hindex, hread, rfl⟩
    obtain ⟨rfl, rfl⟩ := Reader.reads_u16.mp hindex
    split at hread
    · rename_i hzero
      obtain ⟨rfl, rfl, rfl⟩ := Reader.reads_pure.mp hread
      subst hzero
      exact ⟨rfl, by simp, _, rfl, rfl⟩
    · obtain ⟨id, hid, rfl⟩ := Reader.reads_map.mp hread
      obtain ⟨hclass, rfl, rfl⟩ := Reader.reads_ofExcept.mp hid
      -- Any other index has to be that of a class.
      obtain ⟨inner, hinner, rfl⟩ := map_eq_ok_iff.mp hclass
      obtain ⟨hindex, hkeeps⟩ := h.idWithTag_iff.mp hinner
      refine ⟨rfl, ?_, _, encode_eq_ok_iff.mpr ⟨index, hindex, rfl⟩, rfl⟩
      intro found hfound
      cases hfound
      exact hkeeps
  · rintro ⟨rfl, hgood, used, hwrite, rfl⟩
    cases id? with
    | none =>
      cases hwrite
      exact ⟨0, rest, [], [], Reader.reads_u16.mpr ⟨rfl, rfl⟩,
        Reader.reads_pure.mpr ⟨rfl, rfl, rfl⟩, rfl⟩
    | some id =>
      obtain ⟨index, hindex, rfl⟩ := encode_eq_ok_iff.mp hwrite
      refine ⟨index, rest, [], [], Reader.reads_u16.mpr ⟨rfl, rfl⟩, ?_, rfl⟩
      rw [if_neg (h.index_ne_zero hindex)]
      refine Reader.reads_map.mpr ⟨id, Reader.reads_ofExcept.mpr ⟨?_, rfl, rfl⟩, rfl⟩
      exact map_eq_ok_iff.mpr ⟨id.id, h.idWithTag_iff.mpr ⟨hindex, hgood id rfl⟩, rfl⟩

end Pool.LaidOut

/-! ## Two pools with the same constants at the same indices -/

/-- A constant and what it is read as, which has the same raw form. -/
structure Constant.ReadAs (indices later : Indices) (constant other : Constant) : Prop where
  exists_raw : ∃ raw lookup, constant.toRaw indices = .ok raw
    ∧ RawConstant.resolve lookup raw = .ok other ∧ other.toRaw later = .ok raw

namespace Constant.ReadAs

variable {indices later : Indices} {constant other : Constant}

/-- Writing and reading a constant does not change its kind. -/
theorem tag_eq (h : constant.ReadAs indices later other) : other.tag = constant.tag := by
  obtain ⟨raw, lookup, hraw, hother, -⟩ := h.exists_raw
  rw [(RawConstant.tag_width_of_resolve hother).1, (tag_width_of_toRaw hraw).1]

/-- A string is read as the same string. -/
theorem eq_of_utf8 {text : String} (h : (Constant.utf8 text).ReadAs indices later other) :
    other = .utf8 text := by
  obtain ⟨raw, lookup, hraw, hother, -⟩ := h.exists_raw
  cases hraw
  cases hother
  rfl

/-- Units are read as a string if their surrogates pair up. -/
theorem eq_of_utf16 {units : List UInt16} (h : (Constant.utf16 units).ReadAs indices later other) :
    other = ofUnits units := by
  obtain ⟨raw, lookup, hraw, hother, -⟩ := h.exists_raw
  cases hraw
  cases hother
  rfl

end Constant.ReadAs

namespace Pool

/-- Whether a handle is on the text of a string, in either form of text. -/
def Spells (pool : Pool) (name : Utf8Id) (text : String) : Prop :=
  pool.text name = .ok text ∨ ∃ units, pool.constant name.id = .ok (.utf16 units)
    ∧ Text.Utf16.toString? units = some text

/-- The constants of a pool stand at their indices in another one, too, and nothing else does. -/
structure Mirrors (again : Pool) (indices later : Indices) (pool : Pool) : Prop where
  before : pool.LaidOut indices
  after : again.LaidOut later
  exists_other : ∀ {id : ConstantId} {index : UInt16}, indices.indexOf id = .ok index →
    ∃ found constant other, again.idAt index = .ok found ∧ pool.constant id = .ok constant
      ∧ again.constant found = .ok other ∧ constant.ReadAs indices later other
  exists_before : ∀ {found : ConstantId} {index : UInt16}, again.idAt index = .ok found →
    ∃ id, indices.indexOf id = .ok index

/-- The handle on the constant that stands where that of a handle stands. -/
def counterpart (again : Pool) (indices : Indices) (id : ConstantId) : ConstantId :=
  match indices.indexOf id >>= again.idAt with
  | .ok found => found
  | .error _ => id

/-- A constant with its references as indices, at an index. -/
def rawAt (pool : Pool) (indices : Indices) (index : UInt16) : Except Error RawConstant := do
  (← pool.constantAt index).toRaw indices

namespace Mirrors

variable {pool again : Pool} {indices later : Indices} {id : ConstantId} {index : UInt16}

/-- In a mirror, what stands at the index of a handle is what its constant was read as. -/
theorem exists_counterpart (h : again.Mirrors indices later pool)
    (hindex : indices.indexOf id = .ok index) :
    again.idAt index = .ok (again.counterpart indices id) ∧ ∃ constant other,
      pool.constant id = .ok constant ∧ again.constant (again.counterpart indices id) = .ok other
      ∧ constant.ReadAs indices later other := by
  obtain ⟨found, constant, other, hfound, hconstant, hother, hread⟩ := h.exists_other hindex
  have heq : again.counterpart indices id = found := by
    rw [counterpart, hindex]
    show (match again.idAt index with | .ok found => found | .error _ => id) = found
    rw [hfound]
  rw [heq]
  exact ⟨hfound, constant, other, hconstant, hother, hread⟩

/-- A handle and its counterpart have the same index. -/
theorem indexOf_counterpart (h : again.Mirrors indices later pool)
    (hindex : indices.indexOf id = .ok index) :
    later.indexOf (again.counterpart indices id) = .ok index :=
  h.after.idAt_iff.mp (h.exists_counterpart hindex).1

/-- A handle and its counterpart are written alike. -/
theorem encode_counterpart (h : again.Mirrors indices later pool) {written : Bytes}
    (hwrite : indices.encode id = .ok written) :
    later.encode (again.counterpart indices id) = .ok written := by
  obtain ⟨index, hindex, rfl⟩ := LaidOut.encode_eq_ok_iff.mp hwrite
  exact LaidOut.encode_eq_ok_iff.mpr ⟨index, h.indexOf_counterpart hindex, rfl⟩

/-- A counterpart is of the same kind. -/
theorem keeps_counterpart (h : again.Mirrors indices later pool) {written : Bytes}
    {tags : List ConstantTag} (hwrite : indices.encode id = .ok written)
    (hkeeps : pool.Keeps tags id) : again.Keeps tags (again.counterpart indices id) := by
  obtain ⟨index, hindex, -⟩ := LaidOut.encode_eq_ok_iff.mp hwrite
  obtain ⟨-, constant, other, hconstant, hother, hread⟩ := h.exists_counterpart hindex
  intro found hfound
  rw [hother] at hfound
  cases hfound
  rw [hread.tag_eq]
  exact hkeeps constant hconstant

/-- The text of a string is a string in the other pool, whatever its form was. -/
theorem text_counterpart (h : again.Mirrors indices later pool) {name : Utf8Id} {text : String}
    {written : Bytes} (hwrite : indices.encode name.id = .ok written)
    (hspells : pool.Spells name text) :
    again.text ⟨again.counterpart indices name.id⟩ = .ok text := by
  obtain ⟨index, hindex, -⟩ := LaidOut.encode_eq_ok_iff.mp hwrite
  obtain ⟨-, constant, other, hconstant, hother, hread⟩ := h.exists_counterpart hindex
  have heq : other = .utf8 text := by
    rcases hspells with htext | ⟨units, hunits, htext⟩
    -- A string is read as it was written.
    · simp only [Pool.text, hconstant, bind, Except.bind] at htext
      split at htext
      · cases htext
        exact hread.eq_of_utf8
      · cases htext
      · cases htext
    -- Units that are a string are read as that string.
    · rw [hconstant] at hunits
      cases hunits
      rw [hread.eq_of_utf16, Constant.ofUnits, htext]
  rw [Pool.text, hother, heq]
  rfl

/-- The same raw constants stand at the same indices. -/
theorem rawAt_eq (h : again.Mirrors indices later pool) (index : UInt16) :
    again.rawAt later index = pool.rawAt indices index := by
  cases hid : pool.idAt index with
  | ok id =>
    have hindex := h.before.idAt_iff.mp hid
    obtain ⟨hfound, constant, other, hconstant, hother, hread⟩ := h.exists_counterpart hindex
    obtain ⟨raw, lookup, hraw, -, hrawOther⟩ := hread.exists_raw
    -- One raw form is behind both constants.
    simp only [rawAt, constantAt, hid, hfound, hconstant, hother, bind, Except.bind, hraw,
      hrawOther]
  | error cause =>
    cases hfound : again.idAt index with
    | ok found =>
      obtain ⟨id, hindex⟩ := h.exists_before hfound
      rw [h.before.idAt_iff.mpr hindex] at hid
      cases hid
    | error other =>
      rw [idAt_eq_error hid] at hid
      rw [idAt_eq_error hfound] at hfound
      simp only [rawAt, constantAt, hid, hfound, bind, Except.bind]

/-! ### Reading handles in the other pool -/

/-- The index of a handle is read as the counterpart of the handle. -/
theorem rereads_idWithTag (h : again.Mirrors indices later pool) (tags : List ConstantTag)
    (role : ConstantRole) :
    (Reader.u16 >>= fun index => Reader.ofExcept (again.idWithTag tags role index)).Rereads
      (pool.Keeps tags) indices.encode (again.counterpart indices) :=
  (h.after.takes_idWithTag tags role).rereads fun _ _ hkeeps hwrite =>
    ⟨h.keeps_counterpart hwrite hkeeps, h.encode_counterpart hwrite⟩

theorem rereads_readId (h : again.Mirrors indices later pool) :
    again.readId.Rereads (fun _ => True) indices.encode (again.counterpart indices) :=
  h.after.takes_readId.rereads fun _ _ _ hwrite => ⟨trivial, h.encode_counterpart hwrite⟩

theorem rereads_readUtf8 (h : again.Mirrors indices later pool) :
    again.readUtf8.Rereads (fun name : Utf8Id => pool.Keeps [.utf8] name.id)
      (fun name => indices.encode name.id) (fun name => ⟨again.counterpart indices name.id⟩) :=
  h.after.takes_readUtf8.rereads fun _ _ hkeeps hwrite =>
    ⟨h.keeps_counterpart hwrite hkeeps, h.encode_counterpart hwrite⟩

theorem rereads_readClass (h : again.Mirrors indices later pool) :
    again.readClass.Rereads (fun name : ClassId => pool.Keeps [.classInfo] name.id)
      (fun name => indices.encode name.id) (fun name => ⟨again.counterpart indices name.id⟩) :=
  h.after.takes_readClass.rereads fun _ _ hkeeps hwrite =>
    ⟨h.keeps_counterpart hwrite hkeeps, h.encode_counterpart hwrite⟩

/-- Nothing is read as nothing, and a class as its counterpart. -/
theorem rereads_readOptionalClass (h : again.Mirrors indices later pool) :
    again.readOptionalClass.Rereads (fun id? => ∀ id ∈ id?, pool.Keeps [.classInfo] id.id)
      indices.encodeOptionalClass (Option.map fun id => ⟨again.counterpart indices id.id⟩) := by
  refine h.after.takes_readOptionalClass.rereads fun id? written hkeeps hwrite => ?_
  cases id? with
  | none => exact ⟨by simp, hwrite⟩
  | some id =>
    refine ⟨?_, h.encode_counterpart hwrite⟩
    intro found hfound
    cases hfound
    exact h.keeps_counterpart hwrite (hkeeps id rfl)

end Mirrors

end Pool

end ClassFormat
