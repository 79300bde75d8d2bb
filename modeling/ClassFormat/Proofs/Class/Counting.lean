import ClassFormat.Proofs.Class.CodeArrays
import ClassFormat.Proofs.Class.Verbosity
import Mathlib.Algebra.BigOperators.Fin
import Mathlib.Data.Fintype.Basic
import Mathlib.Data.List.Perm.Basic
import Mathlib.Data.List.Sort
/-!
# What a histogram counts

Counting goes from instruction to instruction, and a class that cannot be read to its end leaves
behind what was counted up to there. So counting classes is counting one list of instructions
(`Histogram.countAll_eq`): of each class those of `ClassFile.counted`, which ends with what could be
read of the first body that is broken. Where code is no longer than a file can say, these are the
instructions that a walk over it answers (`ClassFile.HasCodeArrays.runs`).

A histogram is known by its counts (`Histogram.ext_get`), and the count of an opcode is the number
of its occurrences in that list, wherever they are. So the order of the classes does not matter.
-/

namespace ClassFormat

/-! ## Places of opcodes -/

/-- Opcodes by their bytes. -/
def Opcode.equivFin : Fin 256 ≃ Opcode where
  toFun byte := ⟨.ofFin byte⟩
  invFun opcode := opcode.byte.toFin
  left_inv _ := rfl
  right_inv _ := rfl

instance : Fintype Opcode := Fintype.ofEquiv (Fin 256) Opcode.equivFin

namespace Histogram

variable {histogram : Histogram} {opcode other : Opcode} {isWide isOtherWide : Bool}

/-- Opcodes with a wide prefix have slots of their own. -/
theorem val_slot (opcode : Opcode) (isWide : Bool) :
    (slot opcode isWide).val = (if isWide then 256 else 0) + opcode.byte.toNat := rfl

/-- Each opcode has two places of its own. -/
theorem slot_inj :
    slot opcode isWide = slot other isOtherWide ↔ opcode = other ∧ isWide = isOtherWide := by
  constructor
  · intro h
    have hval := congrArg Fin.val h
    rw [val_slot, val_slot] at hval
    have hlt := opcode.byte.toNat_lt
    have hotherLt := other.byte.toNat_lt
    have hbyte : opcode.byte.toNat = other.byte.toNat ∧ isWide = isOtherWide := by
      cases isWide <;> cases isOtherWide <;> simp at hval ⊢ <;> omega
    obtain ⟨⟨byte⟩, ⟨otherByte⟩⟩ := opcode, other
    exact ⟨congrArg Opcode.mk (UInt8.toNat_inj.mp hbyte.1), hbyte.2⟩
  · rintro ⟨rfl, rfl⟩
    rfl

/-- Every place is that of an opcode. -/
theorem slot_ofNat (place : Fin 512) :
    slot ⟨UInt8.ofNat place.val⟩ (decide (256 ≤ place.val)) = place := by
  apply Fin.ext
  rw [val_slot, UInt8.toNat_ofNat']
  by_cases hwide : 256 ≤ place.val
  · simp [hwide]
    omega
  · simp [hwide]
    omega

/-- Plain opcodes have their places before widened ones, and each of them ascend. -/
theorem slot_lt_slot_iff : slot opcode isWide < slot other isOtherWide
    ↔ (isWide = false ∧ isOtherWide = true)
      ∨ isWide = isOtherWide ∧ opcode.byte < other.byte := by
  have hlt := opcode.byte.toNat_lt
  have hotherLt := other.byte.toNat_lt
  rw [Fin.lt_def, val_slot, val_slot, UInt8.lt_iff_toNat_lt]
  cases isWide <;> cases isOtherWide <;> simp <;> omega

/-! ## Counting instructions -/

theorem get_eq (histogram : Histogram) (opcode : Opcode) (isWide : Bool) :
    histogram.get opcode isWide = histogram.counts.get (slot opcode isWide) := rfl

/-- Histograms with the same counts are the same. -/
theorem ext_get {first second : Histogram}
    (h : ∀ opcode isWide, first.get opcode isWide = second.get opcode isWide) : first = second := by
  obtain ⟨counts⟩ := first
  obtain ⟨others⟩ := second
  congr 1
  refine Vector.ext fun place hplace => ?_
  have hsame := h ⟨UInt8.ofNat place⟩ (decide (256 ≤ place))
  rw [get_eq, get_eq, slot_ofNat ⟨place, hplace⟩] at hsame
  exact hsame

/-- Nothing was counted at the beginning. -/
theorem get_empty : empty.get opcode isWide = 0 :=
  Vector.getElem_replicate ..

/-- Counting an instruction counts its opcode, and no other. -/
theorem get_count (instruction : Instruction) : (histogram.count instruction).get opcode isWide
    = histogram.get opcode isWide
      + if instruction.opcode = opcode ∧ instruction.isWide = isWide then 1 else 0 := by
  have hset : (histogram.count instruction).counts = histogram.counts.set
      (slot instruction.opcode instruction.isWide).val (histogram.get instruction.opcode
        instruction.isWide + 1) := rfl
  show (histogram.count instruction).counts[(slot opcode isWide).val] = _
  simp only [hset, Vector.getElem_set]
  by_cases hsame : instruction.opcode = opcode ∧ instruction.isWide = isWide
  · obtain ⟨rfl, rfl⟩ := hsame
    simp
  · rw [if_neg hsame, if_neg fun hval => hsame (slot_inj.mp (Fin.ext hval))]
    rfl

/-- Counting instructions counts each of them. -/
theorem get_foldl_count (instructions : List Instruction) :
    (instructions.foldl count histogram).get opcode isWide = histogram.get opcode isWide
      + instructions.countP fun instruction =>
        instruction.opcode = opcode ∧ instruction.isWide = isWide := by
  induction instructions generalizing histogram with
  | nil => rfl
  | cons instruction instructions ih =>
    rw [List.foldl_cons, ih, get_count, List.countP_cons, Nat.add_assoc,
      Nat.add_comm (List.countP _ _)]
    simp only [decide_eq_true_iff]

/-! ## What a histogram tells -/

/-- The counts of all places are those of the plain opcodes and of the widened ones. -/
theorem sum_get (histogram : Histogram) : ∑ place, histogram.counts.get place
    = ∑ opcode, (histogram.get opcode false + histogram.get opcode true) := by
  rw [← Equiv.sum_comp Opcode.equivFin, Finset.sum_add_distrib]
  have hhalves := Fin.sum_univ_add fun place : Fin (256 + 256) => histogram.counts.get place
  refine hhalves.trans (congrArg₂ _ (Finset.sum_congr rfl fun byte _ => ?_) rfl)
  have hplace : slot (Opcode.equivFin byte) false = Fin.castAdd 256 byte :=
    Fin.ext (Nat.zero_add _)
  rw [get_eq, hplace]

/-- The total is the sum over all opcodes, with a wide prefix and without. -/
theorem total_eq (histogram : Histogram) : histogram.total
    = ∑ opcode, (histogram.get opcode false + histogram.get opcode true) := by
  have hcounts : histogram.counts.toList = List.ofFn histogram.counts.get := by
    refine List.ext_getElem
      (by rw [Vector.length_toList, List.length_ofFn]) fun place hplace hother => ?_
    rw [List.getElem_ofFn, Vector.getElem_toList]
    rfl
  rw [← sum_get, total, ← Vector.sum_eq_foldl_nat, ← Vector.sum_toList, hcounts, List.sum_ofFn]

/-- The row of a place, if anything was counted there. -/
def row? (histogram : Histogram) (place : Fin 512) : Option (Opcode × Bool × Nat) :=
  if histogram.counts.get place = 0 then none
  else some (⟨UInt8.ofNat place.val⟩, decide (256 ≤ place.val), histogram.counts.get place)

/-- The listing goes through the slots in order. -/
theorem toList_eq (histogram : Histogram) :
    histogram.toList = (List.finRange 512).filterMap histogram.row? := rfl

/-- A row tells the count of the opcode that has the place. -/
theorem row?_eq_some_iff {place : Fin 512} {found : Nat} :
    histogram.row? place = some (opcode, isWide, found) ↔ place = slot opcode isWide
      ∧ found = histogram.get opcode isWide ∧ found ≠ 0 := by
  rw [row?, Option.ite_none_left_eq_some, Option.some.injEq, Prod.mk.injEq, Prod.mk.injEq]
  constructor
  · rintro ⟨hne, rfl, rfl, rfl⟩
    rw [slot_ofNat, get_eq, slot_ofNat]
    exact ⟨rfl, rfl, hne⟩
  · rintro ⟨rfl, rfl, hne⟩
    have hown := slot_inj.mp (slot_ofNat (slot opcode isWide))
    exact ⟨hne, hown.1, hown.2, rfl⟩

/-- One row of the list stands before another. -/
def ListedBefore (row next : Opcode × Bool × Nat) : Prop :=
  (row.2.1 = false ∧ next.2.1 = true) ∨ row.2.1 = next.2.1 ∧ row.1.byte < next.1.byte

/-- What was counted is listed, each opcode with its count. -/
theorem mem_toList_iff {found : Nat} : (opcode, isWide, found) ∈ histogram.toList
    ↔ found = histogram.get opcode isWide ∧ found ≠ 0 := by
  simp only [toList_eq, List.mem_filterMap, List.mem_finRange, true_and, row?_eq_some_iff,
    exists_eq_left]

/-- The listing is in order, and nothing is listed twice. -/
theorem pairwise_toList (histogram : Histogram) : histogram.toList.Pairwise ListedBefore := by
  rw [toList_eq, List.pairwise_filterMap]
  refine (List.sortedLT_finRange 512).pairwise.imp ?_
  rintro place later hlt ⟨opcode, isWide, found⟩ hrow ⟨other, isOtherWide, more⟩ hnext
  rw [row?_eq_some_iff] at hrow hnext
  rw [hrow.1, hnext.1, slot_lt_slot_iff] at hlt
  exact hlt

end Histogram

/-! ## Counting classes -/

/-- What is found in the bodies of some methods. -/
def bodiesOf (pool : Pool) (methods : List Method) : List Disassembly :=
  (methods.filterMap Method.code?).map fun code => disassemble pool code.bytes

/-- The bodies in front of the first one that cannot be read to its end, and that one. -/
def upToFailure (bodies : List Disassembly) : List Disassembly :=
  bodies.takeWhile (·.failure.isNone) ++ (bodies.dropWhile (·.failure.isNone)).take 1

/-- The instructions that count for a class: those of its bodies up to the first one that cannot be
read to its end, of which they are those that could be read. -/
def ClassFile.counted (file : ClassFile) : List Instruction :=
  (upToFailure (bodiesOf file.constants file.methods)).flatMap Disassembly.instructions

/-- Why the first body that cannot be read to its end cannot. -/
def ClassFile.failure? (file : ClassFile) : Option Error :=
  (bodiesOf file.constants file.methods).findSome? Disassembly.failure

/-- A body that is decoded to its end is counted, and those behind it are looked at. -/
theorem upToFailure_cons_of_none {body : Disassembly} (h : body.failure = none)
    (others : List Disassembly) : upToFailure (body :: others) = body :: upToFailure others := by
  simp [upToFailure, h]

/-- A body that fails is counted as far as it goes, and nothing behind it. -/
theorem upToFailure_cons_of_some {body : Disassembly} {cause : Error}
    (h : body.failure = some cause) (others : List Disassembly) :
    upToFailure (body :: others) = [body] := by
  simp [upToFailure, h]

namespace Histogram

variable {histogram : Histogram}

/-- Counting over methods is counting the instructions up to the first failure, which is the answer.
-/
theorem countMethods_eq (pool : Pool) (methods : List Method) : countMethods pool histogram methods
    = ((bodiesOf pool methods).findSome? Disassembly.failure,
      ((upToFailure (bodiesOf pool methods)).flatMap Disassembly.instructions).foldl count
        histogram) := by
  induction methods generalizing histogram with
  | nil => rfl
  | cons method methods ih =>
    rw [countMethods]
    cases hcode : method.code? with
    | none =>
      have hbodies : bodiesOf pool (method :: methods) = bodiesOf pool methods := by
        rw [bodiesOf, List.filterMap_cons_none hcode, bodiesOf]
      rw [hbodies]
      exact ih
    | some code =>
      have hbodies : bodiesOf pool (method :: methods)
          = disassemble pool code.bytes :: bodiesOf pool methods := by
        rw [bodiesOf, List.filterMap_cons_some hcode, List.map_cons, bodiesOf]
      rw [hbodies, List.findSome?_cons]
      dsimp only [countCode]
      cases hfailure : (disassemble pool code.bytes).failure with
      | none =>
        rw [upToFailure_cons_of_none hfailure, List.flatMap_cons, List.foldl_append]
        exact ih
      | some cause =>
        rw [upToFailure_cons_of_some hfailure, List.flatMap_singleton]

/-- Counting a class counts its instructions, and fails if one of its bodies is broken. -/
theorem value_countClass_eq (histogram : Histogram) (file : ClassFile) :
    (histogram.countClass .quiet file).value
      = (file.failure?, file.counted.foldl count histogram) := by
  rw [value_countClass_quiet, countMethods_eq]
  rfl

/-- The histogram that counting some classes leaves, one after another, broken or not. -/
def countAll (histogram : Histogram) (files : List ClassFile) : Histogram :=
  files.foldl (fun histogram file => (histogram.countClass .quiet file).value.2) histogram

/-- Counting over classes is counting all instructions that these count. -/
theorem countAll_eq (histogram : Histogram) (files : List ClassFile) :
    histogram.countAll files = (files.flatMap ClassFile.counted).foldl count histogram := by
  rw [countAll, List.foldl_flatMap]
  simp only [value_countClass_eq]

/-- The number of an opcode grows by the number of times it occurs. -/
theorem get_countAll (histogram : Histogram) (files : List ClassFile) (opcode : Opcode)
    (isWide : Bool) : (histogram.countAll files).get opcode isWide
      = histogram.get opcode isWide + (files.flatMap ClassFile.counted).countP fun instruction =>
        instruction.opcode = opcode ∧ instruction.isWide = isWide := by
  rw [countAll_eq, get_foldl_count]

/-- The order of classes does not matter. -/
theorem countAll_perm {files others : List ClassFile} (h : files.Perm others) :
    histogram.countAll files = histogram.countAll others := by
  refine ext_get fun opcode isWide => ?_
  rw [get_countAll, get_countAll, (h.flatMap_right ClassFile.counted).countP_eq]

/-- **Histograms are exact.** A class adds its instructions to whatever was counted before, up to
the first one that cannot be read, and counting it fails if there is one. Of a class whose code is
in code arrays, these are what walks over the bodies of its methods answer. So after some classes
the count of an opcode is the number of its occurrences in all that was read, the total is the sum
of all counts, those that are not zero are listed once each, plain opcodes first and in ascending
order, and the same classes in any other order come to the same histogram. -/
theorem countAll_exact (files : List ClassFile) :
    let histogram := empty.countAll files
    (∀ (before : Histogram) (file : ClassFile), (before.countClass .quiet file).value
        = (file.failure?, file.counted.foldl count before))
      ∧ (∀ file ∈ files, file.HasCodeArrays → ∀ method ∈ file.methods, ∀ body ∈ method.code?,
        let found := disassemble file.constants body.bytes
        (Walk.start body.bytes).Runs file.constants found.instructions found.failure found.stop)
      ∧ (∀ opcode isWide, histogram.get opcode isWide
        = (files.flatMap ClassFile.counted).countP fun instruction =>
          instruction.opcode = opcode ∧ instruction.isWide = isWide)
      ∧ histogram.total = ∑ opcode, (histogram.get opcode false + histogram.get opcode true)
      ∧ (∀ opcode isWide found, (opcode, isWide, found) ∈ histogram.toList
        ↔ found = histogram.get opcode isWide ∧ found ≠ 0)
      ∧ histogram.toList.Pairwise ListedBefore
      ∧ ∀ others, files.Perm others → empty.countAll others = histogram := by
  intro histogram
  refine ⟨value_countClass_eq, fun file _ hcode method hmem body hbody => hcode.runs hmem hbody,
    fun opcode isWide => ?_, histogram.total_eq, fun opcode isWide found => mem_toList_iff,
    histogram.pairwise_toList, fun others hperm => (countAll_perm hperm).symm⟩
  rw [get_countAll, get_empty, Nat.zero_add]

/-- Of a class whose second method is broken, what stands in front of the failure counts, whether
another class is counted before it or after it. -/
theorem countAll_exact_of_broken :
    let file (codes : List Bytes) : ClassFile :=
      ⟨.java8, .empty ⟨0⟩, ⟨0⟩, ⟨⟨⟨0⟩, 0⟩⟩, none, [], [], codes.map fun bytes =>
        ⟨⟨0⟩, ⟨⟨⟨0⟩, 0⟩⟩, ⟨⟨⟨0⟩, 0⟩⟩, [⟨⟨⟨⟨0⟩, 0⟩⟩, .code ⟨0, 0, bytes, [], []⟩⟩]⟩, []⟩
    let broken := file [[0xb1], [0x00, 0xcc], [0xb1]]
    let whole := file [[0x00, 0xb1]]
    [broken, whole].Perm [whole, broken] ∧ whole.HasCodeArrays
      ∧ (∃ body ∈ whole.methods.head?.bind Method.code?,
        (Walk.start body.bytes).Runs whole.constants
          [⟨0, ⟨0x00⟩, false, .nothing⟩, ⟨1, ⟨0xb1⟩, false, .nothing⟩] none ⟨2, [], false⟩)
      ∧ empty.countAll [whole, broken] = empty.countAll [broken, whole]
      ∧ (empty.countAll [broken, whole]).get ⟨0x00⟩ false = 2
      ∧ (empty.countAll [broken, whole]).get ⟨0xb1⟩ false = 2 := by
  intro file broken whole
  have hperm : [broken, whole].Perm [whole, broken] := .swap ..
  have hcode : whole.HasCodeArrays := by decide
  obtain ⟨-, hruns, hget, -, -, -, hothers⟩ := countAll_exact [broken, whole]
  have hcounted : [broken, whole].flatMap ClassFile.counted
      = [⟨0, ⟨0xb1⟩, false, .nothing⟩, ⟨0, ⟨0x00⟩, false, .nothing⟩,
        ⟨0, ⟨0x00⟩, false, .nothing⟩, ⟨1, ⟨0xb1⟩, false, .nothing⟩] := rfl
  refine ⟨hperm, hcode, ⟨_, rfl, ?_⟩, hothers _ hperm, ?_, ?_⟩
  · exact hruns whole (List.mem_cons_of_mem _ List.mem_cons_self) hcode _ List.mem_cons_self _ rfl
  · rw [hget, hcounted]
    rfl
  · rw [hget, hcounted]
    rfl

end Histogram

end ClassFormat
