import ClassFormat.Proofs.Pool.Kinds
/-!
# Text constants

A text constant of a file is its units behind their number of bytes. Reading keeps it as a string if
its surrogates pair up and as its units otherwise, and writes either form as the bytes it was read
from. Behind this stands that texts and the byte strings that are accepted as text correspond one to
one, which `text_bytes_exact` puts first.
-/

namespace ClassFormat

open Text

namespace RawConstant

variable {index : UInt16} {input rest : Bytes} {raw : RawConstant} {noted : List Notice}

/-- What has the tag of a text is what reading makes of some units. -/
theorem exists_ofUnits (hcanonical : raw.Canonical) (htag : raw.tag = .utf8) :
    ∃ units, raw = leaf (Constant.ofUnits units) := by
  cases raw with
  | leaf constant =>
    cases constant with
    | utf8 text =>
      refine ⟨Utf16.ofString text, ?_⟩
      rw [Constant.ofUnits, Utf16.toString?_eq_some_iff.mpr rfl]
    | utf16 units =>
      refine ⟨units, ?_⟩
      rw [Constant.ofUnits, hcanonical.2]
    | _ => exact absurd htag (by simp [tag, Constant.tag]; decide)
  | _ => exact absurd htag (by simp [tag]; decide)

/-- A text constant is read off its bytes as the constant that its units are kept as. -/
theorem reads_text_iff :
    (read index).Reads (BigEndian.u8 ConstantTag.utf8 ++ input) raw rest noted
      ↔ ∃ units, TextFits units ∧ input = textBytes units ++ rest
        ∧ raw = leaf (Constant.ofUnits units) ∧ noted = raw.notices index := by
  rw [reads_read_iff]
  constructor
  · rintro ⟨hcanonical, hinput, rfl⟩
    rw [bytes, List.append_assoc] at hinput
    obtain ⟨htag, rfl⟩ := List.cons.inj hinput
    obtain ⟨units, rfl⟩ := exists_ofUnits hcanonical htag.symm
    rw [Constant.body_ofUnits]
    exact ⟨units, (Constant.canonical_ofUnits units).mp hcanonical, rfl, rfl, rfl⟩
  · rintro ⟨units, hfits, rfl, rfl, rfl⟩
    refine ⟨(Constant.canonical_ofUnits units).mpr hfits, ?_, rfl⟩
    have htag : (leaf (Constant.ofUnits units)).tag = .utf8 := (Constant.tag_width_ofUnits units).1
    rw [bytes, htag, Constant.body_ofUnits, List.append_assoc]

/-- Units are what they were before references were resolved. -/
theorem eq_leaf_of_resolve {lookup : Lookup} {units : List UInt16}
    (h : raw.resolve lookup = .ok (.utf16 units)) : raw = leaf (.utf16 units) := by
  cases raw
  all_goals simp only [resolve, bind_eq_ok_iff, pure_eq_ok_iff] at h
  case leaf constant =>
    cases h
    rfl
  case fieldRef | methodRef | interfaceMethodRef | nameAndType =>
    obtain ⟨_, -, _, -, h⟩ := h
    cases h
  all_goals
    obtain ⟨_, -, h⟩ := h
    cases h

end RawConstant

namespace Constant

open RawConstant

variable {units : List UInt16}

/-- Units whose surrogates pair up are kept as the string of these units. -/
theorem exists_ofUnits_of_paired (h : Utf16.Paired units) :
    ∃ text, ofUnits units = .utf8 text ∧ Utf16.ofString text = units := by
  cases htext : Utf16.toString? units with
  | none => exact absurd h (Utf16.toString?_eq_none_iff.mp htext)
  | some text =>
    refine ⟨text, ?_, Utf16.toString?_eq_some_iff.mp htext⟩
    rw [ofUnits, htext]

/-- Others are kept as they are. -/
theorem ofUnits_of_not_paired (h : ¬ Utf16.Paired units) : ofUnits units = .utf16 units := by
  rw [ofUnits, Utf16.toString?_eq_none_iff.mpr h]

/-- Either form of a text is written as the bytes of the text. -/
theorem encode_ofUnits (hfits : TextFits units) (indices : Indices) :
    (ofUnits units).encode indices
      = .ok (BigEndian.u8 ConstantTag.utf8 ++ textBytes units) := by
  have htext : encodeText units = .ok (textBytes units) := encodeText_eq_ok_iff.mpr ⟨hfits, rfl⟩
  by_cases hpaired : Utf16.Paired units
  · obtain ⟨text, hkept, hunits⟩ := exists_ofUnits_of_paired hpaired
    rw [hkept, encode, encodeBody, hunits, htext]
    rfl
  · rw [ofUnits_of_not_paired hpaired, encode, encodeBody, htext]
    rfl

end Constant

/-- A pool that was read keeps no string as units. -/
theorem Pool.not_paired_of_read {tag : PoolTag} {input rest : Bytes} {pool : Pool}
    {notices : List Notice} (hread : (Pool.read tag).Reads input pool rest notices)
    {id : ConstantId} {units : List UInt16} (hunits : pool.constant id = .ok (.utf16 units)) :
    ¬ Utf16.Paired units := by
  obtain ⟨raws, constants, hresolves, rfl, -, -⟩ := Pool.reads_read_iff.mp hread
  obtain ⟨-, hslot⟩ := constant_eq_ok_iff.mp hunits
  rw [constants_ofRead] at hslot
  obtain ⟨raw, hraw, hresolve⟩ := getElem?_of_forall₂ hresolves.resolved.flip hslot
  -- Units are resolved from units only, and a reader makes these of nothing else.
  have hcanonical := hresolves.canonical raw (List.mem_of_getElem? hraw)
  obtain rfl : raw = .leaf (.utf16 units) := RawConstant.eq_leaf_of_resolve hresolve
  exact Utf16.toString?_eq_none_iff.mp hcanonical.2

/-- Text and its bytes correspond one to one. Decoding takes exactly what encoding writes, units to
units and strings to strings. A text constant is read off the bytes of its units only, as a string
if every surrogate is half of a pair and otherwise, with a notice, as its units, and either is
written as the bytes it was read from. -/
theorem text_bytes_exact :
    (∀ bytes units, ModifiedUtf8.decode bytes = some units ↔ ModifiedUtf8.encode units = bytes)
    ∧ Function.Injective ModifiedUtf8.encode
    ∧ (∀ bytes text,
      ModifiedUtf8.decodeString bytes = some text ↔ ModifiedUtf8.encodeString text = bytes)
    ∧ (∀ (index : UInt16) (input rest : Bytes) (raw : RawConstant) (notices : List Notice),
      (RawConstant.read index).Reads (BigEndian.u8 ConstantTag.utf8 ++ input) raw rest notices
        ↔ ∃ units constant, RawConstant.TextFits units
          ∧ input = RawConstant.textBytes units ++ rest ∧ raw = .leaf constant
          ∧ (Utf16.Paired units ∧ notices = []
              ∧ (∃ text, constant = .utf8 text ∧ Utf16.ofString text = units)
            ∨ ¬ Utf16.Paired units ∧ notices = [.unpairedSurrogates index]
              ∧ constant = .utf16 units)
          ∧ ∀ indices, constant.encode indices
            = .ok (BigEndian.u8 ConstantTag.utf8 ++ RawConstant.textBytes units))
    ∧ ∀ tag input pool rest notices, (Pool.read tag).Reads input pool rest notices →
      ∀ id units, pool.constant id = .ok (.utf16 units) → ¬ Utf16.Paired units := by
  refine ⟨fun bytes units => ModifiedUtf8.decode_eq_some_iff, ModifiedUtf8.encode_injective,
    fun bytes text => ModifiedUtf8.decodeString_eq_some_iff, fun index input rest raw notices => ?_,
    fun tag input pool rest notices hread id units => Pool.not_paired_of_read hread⟩
  rw [RawConstant.reads_text_iff]
  refine exists_congr fun units => ?_
  constructor
  · rintro ⟨hfits, hinput, hraw, hnotices⟩
    refine ⟨_, hfits, hinput, hraw, ?_, Constant.encode_ofUnits hfits⟩
    by_cases hpaired : Utf16.Paired units
    · obtain ⟨text, hkept, hunits⟩ := Constant.exists_ofUnits_of_paired hpaired
      rw [hraw, hkept] at hnotices
      exact .inl ⟨hpaired, hnotices, text, hkept, hunits⟩
    · rw [hraw, Constant.ofUnits_of_not_paired hpaired] at hnotices
      exact .inr ⟨hpaired, hnotices, Constant.ofUnits_of_not_paired hpaired⟩
  · rintro ⟨constant, hfits, hinput, rfl, hkept, -⟩
    refine ⟨hfits, hinput, ?_⟩
    rcases hkept with ⟨hpaired, rfl, text, rfl, rfl⟩ | ⟨hunpaired, rfl, rfl⟩
    · rw [Constant.ofUnits, Utf16.toString?_eq_some_iff.mpr rfl]
      exact ⟨rfl, rfl⟩
    · rw [Constant.ofUnits_of_not_paired hunpaired]
      exact ⟨rfl, rfl⟩

end ClassFormat
