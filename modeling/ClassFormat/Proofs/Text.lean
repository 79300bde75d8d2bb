import ClassFormat.Text.ModifiedUtf8
import Mathlib.Tactic.Common
/-!
# Text and its bytes

Both ways of writing text are one-to-one. `ModifiedUtf8.decode_eq_some_iff` says that decoding
accepts exactly the bytes that encoding writes, and `Utf16.toString?_eq_some_iff` that units are a
string exactly when they are the units of that string. Each follows from two facts about one form:
the reader takes a form back, and whatever it takes is a form. Which units are those of a string can
be seen without the string: those whose surrogates are `Paired`.
-/

namespace ClassFormat.Text

namespace ModifiedUtf8

/-! ## One unit -/

theorem toNat_isContinuation {byte : UInt8} :
    isContinuation byte = true ↔ 0x80 ≤ byte.toNat ∧ byte.toNat ≤ 0xBF := by
  simp [isContinuation, UInt8.le_iff_toNat_le]

/-- A unit of one byte is taken back as that unit. -/
theorem unitsFrom_of_one (found : List UInt16) {unit : UInt16} (rest : Bytes)
    (hone : 0x01 ≤ unit.toNat ∧ unit.toNat ≤ 0x7F) :
    unitsFrom found (unitBytes unit ++ rest) = unitsFrom (unit :: found) rest := by
  have hbyte : (UInt8.ofNat unit.toNat).toNat = unit.toNat := by simp; omega
  have hunit : (UInt8.ofNat unit.toNat).toUInt16 = unit := by
    apply UInt16.toNat_inj.mp
    rw [UInt8.toNat_toUInt16, hbyte]
  have hform : 0x01 ≤ UInt8.ofNat unit.toNat ∧ UInt8.ofNat unit.toNat ≤ 0x7F := by
    simp only [UInt8.le_iff_toNat_le, hbyte]
    exact hone
  simp only [unitBytes, if_pos hone, List.singleton_append]
  rw [unitsFrom.eq_def]
  simp only [if_pos hform, hunit]

/-- A unit of two bytes is taken back as that unit. -/
theorem unitsFrom_of_two (found : List UInt16) {unit : UInt16} (rest : Bytes)
    (hone : ¬ (0x01 ≤ unit.toNat ∧ unit.toNat ≤ 0x7F)) (htwo : unit.toNat ≤ 0x7FF) :
    unitsFrom found (unitBytes unit ++ rest) = unitsFrom (unit :: found) rest := by
  have hfirst : (UInt8.ofNat (0xC0 + unit.toNat / 64)).toNat = 0xC0 + unit.toNat / 64 := by
    simp; omega
  have hsecond : (UInt8.ofNat (0x80 + unit.toNat % 64)).toNat = 0x80 + unit.toNat % 64 := by
    simp; omega
  have hunit : unitOfTwo (UInt8.ofNat (0xC0 + unit.toNat / 64))
      (UInt8.ofNat (0x80 + unit.toNat % 64)) = some unit := by
    have hn : (0xC0 + unit.toNat / 64) % 32 * 64 + (0x80 + unit.toNat % 64) % 64
        = unit.toNat := by omega
    simp only [unitOfTwo, hfirst, hsecond, hn, toNat_isContinuation]
    -- Zero is the one unit below 0x80 that has this form.
    rw [if_pos (by omega)]
    simp
  simp only [unitBytes, if_neg hone, if_pos htwo, List.cons_append, List.nil_append, unitsFrom,
    UInt8.le_iff_toNat_le, hfirst, hunit]
  rw [if_neg (by simp; omega), if_pos (by simp; omega)]

/-- A unit of three bytes is taken back as that unit. -/
theorem unitsFrom_of_three (found : List UInt16) {unit : UInt16} (rest : Bytes)
    (hone : ¬ (0x01 ≤ unit.toNat ∧ unit.toNat ≤ 0x7F)) (htwo : ¬ unit.toNat ≤ 0x7FF) :
    unitsFrom found (unitBytes unit ++ rest) = unitsFrom (unit :: found) rest := by
  have hlt := unit.toNat_lt
  have hfirst : (UInt8.ofNat (0xE0 + unit.toNat / 4096)).toNat = 0xE0 + unit.toNat / 4096 := by
    simp; omega
  have hsecond : (UInt8.ofNat (0x80 + unit.toNat / 64 % 64)).toNat
      = 0x80 + unit.toNat / 64 % 64 := by simp; omega
  have hthird : (UInt8.ofNat (0x80 + unit.toNat % 64)).toNat = 0x80 + unit.toNat % 64 := by
    simp; omega
  have hunit : unitOfThree (UInt8.ofNat (0xE0 + unit.toNat / 4096))
      (UInt8.ofNat (0x80 + unit.toNat / 64 % 64)) (UInt8.ofNat (0x80 + unit.toNat % 64))
        = some unit := by
    have hn : (0xE0 + unit.toNat / 4096) % 16 * 4096 + (0x80 + unit.toNat / 64 % 64) % 64 * 64
        + (0x80 + unit.toNat % 64) % 64 = unit.toNat := by omega
    simp only [unitOfThree, hfirst, hsecond, hthird, hn, toNat_isContinuation]
    rw [if_pos (by omega)]
    simp
  simp only [unitBytes, if_neg hone, if_neg htwo, List.cons_append, List.nil_append, unitsFrom,
    UInt8.le_iff_toNat_le, hfirst, hunit]
  rw [if_neg (by simp; omega), if_neg (by simp; omega), if_pos (by simp; omega)]

/-- The bytes of a unit are taken back as that unit. -/
theorem unitsFrom_unitBytes (found : List UInt16) (unit : UInt16) (rest : Bytes) :
    unitsFrom found (unitBytes unit ++ rest) = unitsFrom (unit :: found) rest := by
  by_cases hone : 0x01 ≤ unit.toNat ∧ unit.toNat ≤ 0x7F
  · exact unitsFrom_of_one found rest hone
  · by_cases htwo : unit.toNat ≤ 0x7FF
    · exact unitsFrom_of_two found rest hone htwo
    · exact unitsFrom_of_three found rest hone htwo

/-- A unit of two bytes is written as those bytes. -/
theorem unitBytes_of_unitOfTwo {first second : UInt8} {unit : UInt16}
    (hfirst : 0xC0 ≤ first.toNat ∧ first.toNat ≤ 0xDF) (h : unitOfTwo first second = some unit) :
    unitBytes unit = [first, second] := by
  simp only [unitOfTwo, toNat_isContinuation, Option.ite_none_right_eq_some, Option.some.injEq]
    at h
  obtain ⟨⟨hsecond, hshort⟩, rfl⟩ := h
  have hn : (UInt16.ofNat (first.toNat % 32 * 64 + second.toNat % 64)).toNat
      = first.toNat % 32 * 64 + second.toNat % 64 := by simp; omega
  simp only [unitBytes, hn]
  rw [if_neg (by omega), if_pos (by omega)]
  simp only [List.cons.injEq, and_true]
  constructor
  · apply UInt8.toNat_inj.mp
    simp
    omega
  · apply UInt8.toNat_inj.mp
    simp
    omega

/-- A unit of three bytes is written as those bytes. -/
theorem unitBytes_of_unitOfThree {first second third : UInt8} {unit : UInt16}
    (hfirst : 0xE0 ≤ first.toNat ∧ first.toNat ≤ 0xEF)
    (h : unitOfThree first second third = some unit) :
    unitBytes unit = [first, second, third] := by
  simp only [unitOfThree, toNat_isContinuation, Option.ite_none_right_eq_some, Option.some.injEq]
    at h
  obtain ⟨⟨hsecond, hthird, hshort⟩, rfl⟩ := h
  have hn : (UInt16.ofNat (first.toNat % 16 * 4096 + second.toNat % 64 * 64
      + third.toNat % 64)).toNat
      = first.toNat % 16 * 4096 + second.toNat % 64 * 64 + third.toNat % 64 := by simp; omega
  simp only [unitBytes, hn]
  rw [if_neg (by omega), if_neg (by omega)]
  simp only [List.cons.injEq, and_true]
  refine ⟨?_, ?_, ?_⟩
  · apply UInt8.toNat_inj.mp
    simp
    omega
  · apply UInt8.toNat_inj.mp
    simp
    omega
  · apply UInt8.toNat_inj.mp
    simp
    omega

/-! ## All units -/

theorem unitsFrom_encode (found units : List UInt16) :
    unitsFrom found (encode units) = some (found.reverse ++ units) := by
  induction units generalizing found with
  | nil => simp [encode, unitsFrom]
  | cons unit units ih =>
    have hsplit : encode (unit :: units) = unitBytes unit ++ encode units := rfl
    rw [hsplit, unitsFrom_unitBytes, ih]
    simp

/-- Whatever is taken off the bytes is written as those bytes. -/
theorem encode_of_unitsFrom {found units : List UInt16} {bytes : Bytes}
    (h : unitsFrom found bytes = some units) :
    ∃ taken, units = found.reverse ++ taken ∧ encode taken = bytes := by
  have hcons {found : List UInt16} {unit : UInt16} {form rest : Bytes}
      (hunit : unitBytes unit = form)
      (ih : ∃ taken, units = (unit :: found).reverse ++ taken ∧ encode taken = rest) :
      ∃ taken, units = found.reverse ++ taken ∧ encode taken = form ++ rest := by
    obtain ⟨taken, rfl, rfl⟩ := ih
    exact ⟨unit :: taken, by simp, by rw [← hunit]; rfl⟩
  -- The induction follows the reader; each form it accepts is the one that is written.
  fun_induction unitsFrom found bytes with
  | case1 found => exact ⟨[], by simpa using h.symm, rfl⟩
  | case2 found first rest hone ih =>
    have hbytes : unitBytes first.toUInt16 = [first] := by
      simp only [UInt8.le_iff_toNat_le] at hone
      have hform : 0x01 ≤ first.toNat ∧ first.toNat ≤ 0x7F := hone
      simp [unitBytes, hform]
    exact hcons hbytes (ih h)
  | case3 found first _ htwo second rest unit hunit ih =>
    simp only [UInt8.le_iff_toNat_le] at htwo
    exact hcons (unitBytes_of_unitOfTwo htwo hunit) (ih h)
  | case6 found first _ _ hthree second third rest unit hunit ih =>
    simp only [UInt8.le_iff_toNat_le] at hthree
    exact hcons (unitBytes_of_unitOfThree hthree hunit) (ih h)
  | case4 | case5 | case7 | case8 | case9 => simp at h

/-- Decoding accepts exactly what encoding writes. -/
theorem decode_eq_some_iff {bytes : Bytes} {units : List UInt16} :
    decode bytes = some units ↔ encode units = bytes := by
  constructor
  · intro h
    obtain ⟨taken, rfl, hbytes⟩ := encode_of_unitsFrom h
    simpa using hbytes
  · rintro rfl
    simpa [decode] using unitsFrom_encode [] units

end ModifiedUtf8

namespace Utf16

/-! ## One character -/

theorem toNat_isHigh {unit : UInt16} :
    isHigh unit = true ↔ 0xD800 ≤ unit.toNat ∧ unit.toNat ≤ 0xDBFF := by
  simp [isHigh, UInt16.le_iff_toNat_le]

theorem toNat_isLow {unit : UInt16} :
    isLow unit = true ↔ 0xDC00 ≤ unit.toNat ∧ unit.toNat ≤ 0xDFFF := by
  simp [isLow, UInt16.le_iff_toNat_le]

/-- Code points are below the surrogates, or above them up to the last plane. -/
theorem isValidChar_toNat (c : Char) :
    c.toNat < 0xD800 ∨ 0xDFFF < c.toNat ∧ c.toNat < 0x110000 :=
  c.valid

theorem toNat_ofNat_of_valid {n : Nat} (h : n < 0xD800 ∨ 0xDFFF < n ∧ n < 0x110000) :
    (Char.ofNat n).toNat = n := by
  rw [Char.ofNat, dif_pos h]
  rfl

/-- The units of a character are taken back as that character. -/
theorem charsFrom_ofChar (found : List Char) (c : Char) (rest : List UInt16) :
    charsFrom found (ofChar c ++ rest) = charsFrom (c :: found) rest := by
  have hvalid := isValidChar_toNat c
  by_cases hone : c.toNat < 0x10000
  · -- One unit, which is no surrogate.
    have hunit : (UInt16.ofNat c.toNat).toNat = c.toNat := by simp; omega
    have hhigh : ¬ isHigh (UInt16.ofNat c.toNat) = true := by rw [toNat_isHigh, hunit]; omega
    have hlow : ¬ isLow (UInt16.ofNat c.toNat) = true := by rw [toNat_isLow, hunit]; omega
    simp only [ofChar, if_pos hone, List.singleton_append]
    rw [charsFrom.eq_def]
    simp only [if_neg hhigh, if_neg hlow, hunit, Char.ofNat_toNat]
  · -- A high and a low surrogate.
    have hhigh : (UInt16.ofNat (0xD800 + (c.toNat - 0x10000) / 0x400)).toNat
        = 0xD800 + (c.toNat - 0x10000) / 0x400 := by simp; omega
    have hlow : (UInt16.ofNat (0xDC00 + (c.toNat - 0x10000) % 0x400)).toNat
        = 0xDC00 + (c.toNat - 0x10000) % 0x400 := by simp; omega
    have hpair : pair (UInt16.ofNat (0xD800 + (c.toNat - 0x10000) / 0x400))
        (UInt16.ofNat (0xDC00 + (c.toNat - 0x10000) % 0x400)) = c := by
      have hn : 0x10000 + (0xD800 + (c.toNat - 0x10000) / 0x400 - 0xD800) * 0x400
          + (0xDC00 + (c.toNat - 0x10000) % 0x400 - 0xDC00) = c.toNat := by omega
      rw [pair, hhigh, hlow, hn, Char.ofNat_toNat]
    have hisHigh : isHigh (UInt16.ofNat (0xD800 + (c.toNat - 0x10000) / 0x400)) = true := by
      rw [toNat_isHigh, hhigh]; omega
    have hisLow : isLow (UInt16.ofNat (0xDC00 + (c.toNat - 0x10000) % 0x400)) = true := by
      rw [toNat_isLow, hlow]; omega
    simp only [ofChar, if_neg hone, List.cons_append, List.nil_append]
    rw [charsFrom.eq_def]
    simp only [hisHigh, hisLow, if_true, hpair]

/-- A surrogate pair is the units of its character. -/
theorem ofChar_pair {high low : UInt16} (hhigh : isHigh high = true) (hlow : isLow low = true) :
    ofChar (pair high low) = [high, low] := by
  rw [toNat_isHigh] at hhigh
  rw [toNat_isLow] at hlow
  have hn : (pair high low).toNat
      = 0x10000 + (high.toNat - 0xD800) * 0x400 + (low.toNat - 0xDC00) := by
    apply toNat_ofNat_of_valid
    omega
  rw [ofChar, if_neg (by omega), hn]
  simp only [List.cons.injEq, and_true]
  constructor
  · apply UInt16.toNat_inj.mp
    simp
    omega
  · apply UInt16.toNat_inj.mp
    simp
    omega

/-- A unit that is no surrogate is the one unit of its character. -/
theorem ofChar_ofNat {unit : UInt16} (hhigh : ¬ isHigh unit = true) (hlow : ¬ isLow unit = true) :
    ofChar (Char.ofNat unit.toNat) = [unit] := by
  rw [toNat_isHigh] at hhigh
  rw [toNat_isLow] at hlow
  have hlt := unit.toNat_lt
  have hn : (Char.ofNat unit.toNat).toNat = unit.toNat := by
    apply toNat_ofNat_of_valid
    omega
  rw [ofChar, if_pos (by omega), hn, UInt16.ofNat_toNat]

/-! ## All characters -/

theorem charsFrom_flatMap_ofChar (found chars : List Char) :
    charsFrom found (chars.flatMap ofChar) = some (found.reverse ++ chars) := by
  induction chars generalizing found with
  | nil => simp [charsFrom]
  | cons c chars ih =>
    rw [List.flatMap_cons, charsFrom_ofChar, ih]
    simp

/-- Whatever is taken off the units has those units. -/
theorem flatMap_ofChar_of_charsFrom {found chars : List Char} {units : List UInt16}
    (h : charsFrom found units = some chars) :
    ∃ taken, chars = found.reverse ++ taken ∧ taken.flatMap ofChar = units := by
  have hcons {found : List Char} {c : Char} {form rest : List UInt16}
      (hc : ofChar c = form)
      (ih : ∃ taken, chars = (c :: found).reverse ++ taken ∧ taken.flatMap ofChar = rest) :
      ∃ taken, chars = found.reverse ++ taken ∧ taken.flatMap ofChar = form ++ rest := by
    obtain ⟨taken, rfl, rfl⟩ := ih
    exact ⟨c :: taken, by simp, by rw [← hc]; rfl⟩
  fun_induction charsFrom found units with
  | case1 found => exact ⟨[], by simpa using h.symm, rfl⟩
  | case3 found high hhigh low rest hlow ih => exact hcons (ofChar_pair hhigh hlow) (ih h)
  | case6 found unit rest hhigh hlow ih => exact hcons (ofChar_ofNat hhigh hlow) (ih h)
  | case2 | case4 | case5 => simp at h

/-- Units are a string exactly when they are the units of that string. -/
theorem toString?_eq_some_iff {units : List UInt16} {text : String} :
    toString? units = some text ↔ ofString text = units := by
  constructor
  · intro h
    obtain ⟨chars, hchars, rfl⟩ := Option.map_eq_some_iff.mp h
    obtain ⟨taken, rfl, rfl⟩ := flatMap_ofChar_of_charsFrom hchars
    simp [ofString]
  · rintro rfl
    simp [toString?, ofString, charsFrom_flatMap_ofChar]

/-! ## Surrogates in pairs -/

/-- Whether every surrogate is half of a pair: the units before the low ones are the high ones, no
low one comes first and no high one comes last. -/
structure Paired (units : List UInt16) : Prop where
  chain : units.IsChain fun unit next => isHigh unit = isLow next
  head : ∀ unit ∈ units.head?, isLow unit = false
  last : ∀ unit ∈ units.getLast?, isHigh unit = false

theorem isLow_of_isHigh {unit : UInt16} (h : isHigh unit = true) : isLow unit = false := by
  rw [toNat_isHigh] at h
  rw [Bool.eq_false_iff, Ne, toNat_isLow]
  omega

theorem paired_nil : Paired [] := ⟨.nil, by simp, by simp⟩

/-- A unit in front that is no surrogate does not matter. -/
theorem paired_cons_iff {unit : UInt16} {rest : List UInt16} (hhigh : isHigh unit = false)
    (hlow : isLow unit = false) : Paired (unit :: rest) ↔ Paired rest := by
  cases rest with
  | nil =>
    refine iff_of_true ⟨.singleton _, ?_, ?_⟩ paired_nil
    · rintro _ ⟨⟩
      exact hlow
    · rintro _ ⟨⟩
      exact hhigh
  | cons next rest =>
    constructor
    · rintro ⟨hchain, -, hlast⟩
      rw [List.isChain_cons_cons, hhigh] at hchain
      refine ⟨hchain.2, ?_, hlast⟩
      rintro _ ⟨⟩
      exact hchain.1.symm
    · rintro ⟨hchain, hhead, hlast⟩
      refine ⟨List.isChain_cons_cons.mpr ⟨?_, hchain⟩, ?_, hlast⟩
      · rw [hhigh, hhead next rfl]
      · rintro _ ⟨⟩
        exact hlow

/-- Nor does a pair in front. -/
theorem paired_cons_cons_iff {high low : UInt16} {rest : List UInt16} (hhigh : isHigh high = true)
    (hlow : isLow low = true) : Paired (high :: low :: rest) ↔ Paired rest := by
  have hnot : isHigh low = false := by
    cases h : isHigh low with
    | false => rfl
    | true => rw [isLow_of_isHigh h] at hlow; cases hlow
  cases rest with
  | nil =>
    have hpair : [high, low].IsChain fun unit next => isHigh unit = isLow next :=
      List.isChain_cons_cons.mpr ⟨hhigh.trans hlow.symm, .singleton low⟩
    refine iff_of_true ⟨hpair, ?_, ?_⟩ paired_nil
    · rintro _ ⟨⟩
      exact isLow_of_isHigh hhigh
    · rintro _ ⟨⟩
      exact hnot
  | cons next rest =>
    constructor
    · rintro ⟨hchain, -, hlast⟩
      rw [List.isChain_cons_cons, List.isChain_cons_cons, hnot] at hchain
      refine ⟨hchain.2.2, ?_, hlast⟩
      rintro _ ⟨⟩
      exact hchain.2.1.symm
    · rintro ⟨hchain, hhead, hlast⟩
      refine ⟨?_, ?_, hlast⟩
      · rw [List.isChain_cons_cons, List.isChain_cons_cons, hhigh, hlow, hnot, hhead next rfl]
        exact ⟨rfl, rfl, hchain⟩
      · rintro _ ⟨⟩
        exact isLow_of_isHigh hhigh

/-- Units are taken as characters exactly if their surrogates pair up. -/
theorem exists_charsFrom_iff {found : List Char} {units : List UInt16} :
    (∃ chars, charsFrom found units = some chars) ↔ Paired units := by
  fun_induction charsFrom found units with
  | case1 found => exact iff_of_true ⟨_, rfl⟩ paired_nil
  | case2 found high hhigh =>
    refine iff_of_false (by simp) fun hpaired => ?_
    have hlast := hpaired.last high rfl
    rw [hhigh] at hlast
    cases hlast
  | case3 found high hhigh low rest hlow ih => rw [ih, paired_cons_cons_iff hhigh hlow]
  | case4 found high hhigh low rest hlow =>
    refine iff_of_false (by simp) fun hpaired => ?_
    have hpair := (List.isChain_cons_cons.mp hpaired.chain).1
    rw [hhigh] at hpair
    exact hlow hpair.symm
  | case5 found unit rest hhigh hlow =>
    refine iff_of_false (by simp) fun hpaired => ?_
    have hhead := hpaired.head unit rfl
    rw [hlow] at hhead
    cases hhead
  | case6 found unit rest hhigh hlow ih =>
    rw [ih, paired_cons_iff (Bool.eq_false_iff.mpr hhigh) (Bool.eq_false_iff.mpr hlow)]

/-- Units have no string exactly if some surrogate is not half of a pair. -/
theorem toString?_eq_none_iff {units : List UInt16} : toString? units = none ↔ ¬ Paired units := by
  rw [← @exists_charsFrom_iff [], toString?, Option.map_eq_none_iff, not_exists,
    Option.eq_none_iff_forall_ne_some]

end Utf16

namespace ModifiedUtf8

/-! ## Strings -/

/-- No two texts have the same bytes. -/
theorem encode_injective : Function.Injective encode := by
  intro units others heq
  have hunits : decode (encode others) = some units := decode_eq_some_iff.mpr heq
  rw [decode_eq_some_iff.mpr rfl] at hunits
  exact (Option.some.inj hunits).symm

/-- A string is decoded exactly from the bytes that it is written as. -/
theorem decodeString_eq_some_iff {bytes : Bytes} {text : String} :
    decodeString bytes = some text ↔ encodeString text = bytes := by
  unfold decodeString encodeString
  rw [Option.bind_eq_bind, Option.bind_eq_some_iff]
  constructor
  · rintro ⟨units, hunits, htext⟩
    rw [Utf16.toString?_eq_some_iff] at htext
    rw [htext]
    exact decode_eq_some_iff.mp hunits
  · intro hbytes
    exact ⟨Utf16.ofString text, decode_eq_some_iff.mpr hbytes, Utf16.toString?_eq_some_iff.mpr rfl⟩

end ModifiedUtf8

end ClassFormat.Text
