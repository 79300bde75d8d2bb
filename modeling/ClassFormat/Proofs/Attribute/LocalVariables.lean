import ClassFormat.Attribute.LocalVariables
import ClassFormat.Proofs.Code.Location
import ClassFormat.Proofs.Descriptor
import ClassFormat.Proofs.Pool.Handle
import Mathlib.Data.List.ReduceOption
/-!
# Local variable tables, read and written

A table is written as its rows, and joining rows of the same variable does not change what they are
written as. So a table that was read is written as the rows that were of use, and a table that was
written is read as the table in which neighbouring entries about the same variable are joined.
-/

namespace ClassFormat

/-! ## Single rows -/

namespace VariableRow

variable {row : VariableRow} {input rest : Bytes} {notices : List Notice}

/-- The bytes of a row. -/
def bytes (row : VariableRow) : Bytes :=
  BigEndian.u16 row.start ++ (BigEndian.u16 row.length ++ (BigEndian.u16 row.name
    ++ (BigEndian.u16 row.descriptor ++ BigEndian.u16 row.slot)))

/-- The entry of a single row, or why the row is of no use. -/
def entry (pool : Pool) (row : VariableRow) : Except Error (VariableEntry Span) := do
  let name ← pool.utf8At row.name
  let descriptor ← pool.utf8At row.descriptor
  let type ← FieldType.parse (← pool.text descriptor)
  return ⟨name, descriptor, type, row.slot, [row.span]⟩

/-- The length of a row is stored one less than it is, so no row is empty. -/
theorem span_lt (row : VariableRow) : row.span.start < row.span.stop := by
  show row.start.toNat < row.start.toNat + row.length.toNat + 1
  omega

/-- The entry of a row has the range of the row. -/
theorem ranges_of_entry {pool : Pool} {entry : VariableEntry Span}
    (h : row.entry pool = .ok entry) : entry.ranges = [row.span] := by
  simp only [VariableRow.entry, bind_eq_ok_iff, pure_eq_ok_iff] at h
  obtain ⟨name, -, descriptor, -, text, -, type, -, rfl⟩ := h
  rfl

@[simp] theorem length_bytes (row : VariableRow) : row.bytes.length = 10 := by
  simp [bytes]

/-- Any ten bytes are a row; what they mean is settled only later. -/
theorem reads_read_iff : read.Reads input row rest notices
    ↔ input = row.bytes ++ rest ∧ notices = [] := by
  simp only [read, Reader.reads_bind, Reader.reads_u16, Reader.reads_pure]
  constructor
  · rintro ⟨start, _, _, _, ⟨rfl, rfl⟩, ⟨length, _, _, _, ⟨rfl, rfl⟩, ⟨name, _, _, _, ⟨rfl, rfl⟩,
      ⟨descriptor, _, _, _, ⟨rfl, rfl⟩, ⟨slot, _, _, _, ⟨rfl, rfl⟩, ⟨rfl, rfl, rfl⟩, rfl⟩, rfl⟩,
      rfl⟩, rfl⟩, rfl⟩
    simp [bytes]
  · rintro ⟨rfl, rfl⟩
    refine ⟨row.start, _, [], [], ⟨by simp only [bytes, List.append_assoc], rfl⟩,
      ⟨row.length, _, [], [], ⟨rfl, rfl⟩, ⟨row.name, _, [], [], ⟨rfl, rfl⟩,
      ⟨row.descriptor, _, [], [], ⟨rfl, rfl⟩, ⟨row.slot, _, [], [], ⟨rfl, rfl⟩, ⟨rfl, rfl, rfl⟩,
      rfl⟩, rfl⟩, rfl⟩, rfl⟩, rfl⟩

end VariableRow

/-- What holds of the entries of a table that was read or finalized: the name and the descriptor are
text, the descriptor is that of the type, and there are ranges, none of them empty. -/
structure VariableEntry.Sound (pool : Pool) (entry : VariableEntry Span) : Prop where
  name_keeps : pool.Keeps [.utf8] entry.name.id
  descriptor_keeps : pool.Keeps [.utf8] entry.descriptor.id
  text_eq : pool.text entry.descriptor = .ok entry.type.render
  wellFormed : entry.type.WellFormed
  ranges_ne : entry.ranges ≠ []
  range_lt : ∀ span ∈ entry.ranges, span.start < span.stop

/-- The type of an entry is what its descriptor says. -/
def VariableEntry.Typed (pool : Pool) (entry : VariableEntry Span) : Prop :=
  (pool.text entry.descriptor >>= FieldType.parse) = .ok entry.type

/-- An entry with its ranges as a builder has them. -/
def VariableEntry.reopened (entry : VariableEntry Span) : VariableEntry LocationRange :=
  { entry with ranges := entry.ranges.map LocationRange.ofSpan }

/-- An entry is finalized to the one that it is if reopened, if that has ranges and none is
empty. -/
theorem VariableEntry.finalize?_eq_some_iff {entry : VariableEntry LocationRange}
    {final : VariableEntry Span} : entry.finalize? = some final ↔ entry = final.reopened
      ∧ final.ranges ≠ [] ∧ ∀ span ∈ final.ranges, span.start < span.stop := by
  obtain ⟨name, descriptor, type, slot, ranges⟩ := entry
  have hfinalize : finalize? ⟨name, descriptor, type, slot, ranges⟩ = some final
      ↔ ∃ spans, ranges.mapM LocationRange.span? = some spans ∧ spans ≠ []
        ∧ ⟨name, descriptor, type, slot, spans⟩ = final := by
    rw [finalize?]
    split <;> simp_all
  rw [hfinalize]
  constructor
  · rintro ⟨spans, hspans, hne, rfl⟩
    obtain ⟨rfl, hlt⟩ := LocationRange.mapM_span?_eq_some_iff.mp hspans
    exact ⟨rfl, hne, hlt⟩
  · rintro ⟨heq, hne, hlt⟩
    cases heq
    exact ⟨final.ranges, LocationRange.mapM_span?_eq_some_iff.mpr ⟨rfl, hlt⟩, hne, rfl⟩

/-- An entry with one of its ranges only. -/
def VariableEntry.single (row : VariableEntry Span × Span) : VariableEntry Span :=
  { row.1 with ranges := [row.2] }

/-- An entry with its handles replaced. -/
def VariableEntry.mapHandles (replace : ConstantId → ConstantId) (entry : VariableEntry Span) :
    VariableEntry Span :=
  { entry with
    name := ⟨replace entry.name.id⟩
    descriptor := ⟨replace entry.descriptor.id⟩ }

/-- What an entry is about: a name, a descriptor and a slot. -/
def VariableEntry.subject {ρ : Type} (entry : VariableEntry ρ) : Utf8Id × Utf8Id × UInt16 :=
  (entry.name, entry.descriptor, entry.slot)

/-- Two entries are about one variable when slot, name and descriptor agree. -/
theorem VariableEntry.isSameVariable_iff {ρ σ : Type} {entry : VariableEntry ρ}
    {other : VariableEntry σ} : entry.isSameVariable other = true
      ↔ entry.subject = other.subject := by
  simp only [isSameVariable, subject, Bool.and_eq_true, beq_iff_eq, Prod.mk.injEq, and_assoc]

theorem VariableEntry.reversed_reversed (entry : VariableEntry Span) :
    entry.reversed.reversed = entry := by
  rw [reversed, reversed, List.reverse_reverse]

namespace LocalVariableTable

variable {pool again : Pool} {indices later : Indices} {written : Bytes}

/-- The rows of some entries. -/
def rowsOf (entries : List (VariableEntry Span)) : List (VariableEntry Span × Span) :=
  (LocalVariableTable.mk entries).rows

/-- A row, as it is written. -/
def encodeRowOf (indices : Indices) (row : VariableEntry Span × Span) : Except Error Bytes :=
  encodeRow indices row.1 row.2

/-- An entry is written as the row that mentions its constants by their indices. -/
theorem encodeRowOf_eq_ok_iff {row : VariableEntry Span × Span} :
    encodeRowOf indices row = .ok written ↔ ∃ raw : VariableRow, written = raw.bytes
      ∧ indices.indexOf row.1.name.id = .ok raw.name
      ∧ indices.indexOf row.1.descriptor.id = .ok raw.descriptor ∧ row.1.slot = raw.slot
      ∧ row.2.start = raw.start.toNat ∧ row.2.stop - row.2.start - 1 = raw.length.toNat := by
  simp only [encodeRowOf, encodeRow, bind_eq_ok_iff, narrow16_eq_ok_iff, pure_eq_ok_iff,
    Pool.LaidOut.encode_eq_ok_iff]
  constructor
  · rintro ⟨_, ⟨hstart, rfl⟩, _, ⟨hlength, rfl⟩, _, ⟨name, hname, rfl⟩, _,
      ⟨descriptor, hdescriptor, rfl⟩, rfl⟩
    refine ⟨⟨UInt16.ofNat row.2.start, UInt16.ofNat (row.2.stop - row.2.start - 1), name,
      descriptor, row.1.slot⟩, ?_, hname, hdescriptor, rfl, ?_, ?_⟩
    · simp only [VariableRow.bytes, List.append_assoc]
    · exact (UInt16.toNat_ofNat_of_lt' hstart).symm
    · exact (UInt16.toNat_ofNat_of_lt' hlength).symm
  · rintro ⟨raw, rfl, hname, hdescriptor, hslot, hstart, hlength⟩
    rw [hslot, hlength, hstart]
    refine ⟨raw.start, ⟨raw.start.toNat_lt, UInt16.ofNat_toNat.symm⟩, raw.length,
      ⟨raw.length.toNat_lt, UInt16.ofNat_toNat.symm⟩, _, ⟨raw.name, hname, rfl⟩, _,
      ⟨raw.descriptor, hdescriptor, rfl⟩, ?_⟩
    simp only [VariableRow.bytes, List.append_assoc]

theorem length_of_encodeRowOf {row : VariableEntry Span × Span}
    (h : encodeRowOf indices row = .ok written) : written.length = 10 := by
  obtain ⟨raw, rfl, -⟩ := encodeRowOf_eq_ok_iff.mp h
  exact raw.length_bytes

/-! ## Joining rows -/

/-- Put an entry in front of the entries behind it, into the first one if that is about the same
variable. -/
def joinRow (row : VariableEntry Span) : List (VariableEntry Span) → List (VariableEntry Span)
  | [] => [row]
  | next :: others =>
    if row.isSameVariable next then { row with ranges := row.ranges ++ next.ranges } :: others
    else row :: next :: others

/-- Join entries about the same variable that follow one another. -/
def group (entries : List (VariableEntry Span)) : List (VariableEntry Span) :=
  entries.foldr joinRow []

/-- What of a row is written. -/
def rowKey (row : VariableEntry Span × Span) : Utf8Id × Utf8Id × UInt16 × Span :=
  (row.1.name, row.1.descriptor, row.1.slot, row.2)

/-- An entry is written as one row for each of its ranges. -/
theorem rowsOf_cons (entry : VariableEntry Span) (entries : List (VariableEntry Span)) :
    rowsOf (entry :: entries) = entry.ranges.map (fun span => (entry, span)) ++ rowsOf entries := by
  rw [rowsOf, rows, List.flatMap_cons]
  rfl

/-- Joining a row to a table adds what the row is written as. -/
theorem map_rowKey_joinRow (row : VariableEntry Span) (others : List (VariableEntry Span)) :
    (rowsOf (joinRow row others)).map rowKey = (rowsOf (row :: others)).map rowKey := by
  cases others with
  | nil => rfl
  | cons next others =>
    rw [joinRow]
    split
    · rename_i hsame
      simp only [VariableEntry.isSameVariable, Bool.and_eq_true, beq_iff_eq] at hsame
      obtain ⟨⟨hname, hdescriptor⟩, hslot⟩ := hsame
      simp only [rowsOf_cons, List.map_append, List.map_map]
      rw [List.append_assoc]
      congr 2
      -- The rows of the next entry have the same key under the name of the first one.
      refine List.map_congr_left fun span _ => ?_
      simp only [Function.comp_apply, rowKey, hname, hdescriptor, hslot]
    · rfl

/-- Joining rows does not change what they are written as. -/
theorem map_rowKey_group (entries : List (VariableEntry Span)) :
    (rowsOf (group entries)).map rowKey = (rowsOf entries).map rowKey := by
  induction entries with
  | nil => rfl
  | cons entry entries ih =>
    rw [group, List.foldr_cons, ← group, map_rowKey_joinRow, rowsOf_cons, rowsOf_cons,
      List.map_append, List.map_append, ih]

/-- A row takes over the ranges of the entry behind it when both are about one variable. -/
theorem joinRow_of_same {row next : VariableEntry Span} {others : List (VariableEntry Span)}
    (h : row.isSameVariable next = true) : joinRow row (next :: others)
      = { row with ranges := row.ranges ++ next.ranges } :: others := by
  rw [joinRow, if_pos h]

/-- A row about another variable stays an entry of its own. -/
theorem joinRow_of_not_same {row next : VariableEntry Span} {others : List (VariableEntry Span)}
    (h : row.isSameVariable next = false) :
    joinRow row (next :: others) = row :: next :: others := by
  rw [joinRow, if_neg (Bool.eq_false_iff.mp h)]

/-- Two entries about the same variable are joined to what is behind them one by one or at once. -/
theorem joinRow_joinRow_of_same {first second : VariableEntry Span}
    (h : first.isSameVariable second = true) (others : List (VariableEntry Span)) :
    joinRow first (joinRow second others)
      = joinRow { first with ranges := first.ranges ++ second.ranges } others := by
  have hsubject := VariableEntry.isSameVariable_iff.mp h
  have hself : ∀ ranges : List Span,
      first.isSameVariable { second with ranges := ranges } = true := fun _ => h
  cases others with
  | nil => exact joinRow_of_same h
  | cons next others =>
    have hnext : ∀ ranges : List Span, VariableEntry.isSameVariable
        { first with ranges := ranges } next = second.isSameVariable next := by
      intro ranges
      rw [Bool.eq_iff_iff, VariableEntry.isSameVariable_iff, VariableEntry.isSameVariable_iff,
        ← hsubject]
      rfl
    cases hsame : second.isSameVariable next with
    | true =>
      rw [joinRow_of_same hsame, joinRow_of_same (hself _), joinRow_of_same ((hnext _).trans hsame),
        List.append_assoc]
    | false =>
      rw [joinRow_of_not_same hsame, joinRow_of_same h,
        joinRow_of_not_same ((hnext _).trans hsame)]

/-- Joining an entry to others keeps it in front. -/
theorem exists_joinRow_eq (row : VariableEntry Span) (others : List (VariableEntry Span)) :
    ∃ ranges behind, joinRow row others = { row with ranges := ranges } :: behind := by
  cases others with
  | nil => exact ⟨_, _, rfl⟩
  | cons next others =>
    cases hsame : row.isSameVariable next with
    | true => exact ⟨_, _, joinRow_of_same hsame⟩
    | false => exact ⟨_, _, joinRow_of_not_same hsame⟩

/-- The ranges of an entry are joined to what is behind them one by one or at once. -/
theorem foldr_joinRow_single (entry : VariableEntry Span) (ranges : List Span) (span : Span)
    (others : List (VariableEntry Span)) :
    (((span :: ranges).map fun span => (entry, span)).map VariableEntry.single).foldr joinRow others
      = joinRow { entry with ranges := span :: ranges } others := by
  induction ranges generalizing span with
  | nil => rfl
  | cons next ranges ih =>
    have hself : (VariableEntry.single (entry, span)).isSameVariable
        { entry with ranges := next :: ranges } = true :=
      VariableEntry.isSameVariable_iff.mpr rfl
    rw [List.map_cons, List.map_cons, List.foldr_cons, ih next, joinRow_joinRow_of_same hself]
    rfl

/-- Entries are joined in the same way, row by row or as they are. -/
theorem group_singles {entries : List (VariableEntry Span)}
    (h : ∀ entry ∈ entries, entry.ranges ≠ []) :
    group ((rowsOf entries).map VariableEntry.single) = group entries := by
  induction entries with
  | nil => rfl
  | cons entry entries ih =>
    rw [List.forall_mem_cons] at h
    obtain ⟨span, ranges, hranges⟩ := List.exists_cons_of_ne_nil h.1
    rw [rowsOf_cons, List.map_append, group, List.foldr_append, ← group, ih h.2, hranges,
      foldr_joinRow_single, ← hranges]
    rfl

/-! ## Writing and reading rows one by one -/

/-- Counting the ranges of entries counts their rows. -/
theorem foldl_length_ranges (entries : List (VariableEntry Span)) (count : Nat) :
    entries.foldl (fun count entry => count + entry.ranges.length) count
      = count + (rowsOf entries).length := by
  induction entries generalizing count with
  | nil => rfl
  | cons entry entries ih =>
    rw [List.foldl_cons, ih, rowsOf_cons, List.length_append, List.length_map, Nat.add_assoc]

/-- The count of the rows that is written is the number of rows behind it. -/
theorem length_rows (table : LocalVariableTable) : table.rows.length = table.rowCount := by
  rw [rowCount, foldl_length_ranges, Nat.zero_add]
  rfl

/-- A table is written as the counted list of its rows. -/
theorem encode_eq (table : LocalVariableTable) : table.encode indices
    = encodeCounted .localVariableRows (encodeRowOf indices) table.rows := by
  rw [encode, encodeCounted, encodeAll, length_rows]
  have hrow : (fun row : VariableEntry Span × Span => encodeRow indices row.1 row.2)
      = encodeRowOf indices := rfl
  cases narrow16 .localVariableRows table.rowCount with
  | error cause => rfl
  | ok count =>
    show (table.rows.mapM (encodeRowOf indices) >>= fun rows => _) = _
    cases table.rows.mapM (encodeRowOf indices) <;> rfl

theorem length_of_encode {table : LocalVariableTable}
    (hwrite : table.encode indices = .ok written) : written.length = table.length := by
  rw [encode_eq] at hwrite
  have hlength := length_of_encodeCounted hwrite fun row _ _ hrow => length_of_encodeRowOf hrow
  rw [List.map_const', List.sum_replicate_nat, length_rows, Nat.mul_comm] at hlength
  exact hlength

/-- What is written depends on what of the rows is written. -/
theorem encodeAll_congr_rowKey {rows others : List (VariableEntry Span × Span)}
    (h : rows.map rowKey = others.map rowKey) :
    encodeAll (encodeRowOf indices) rows = encodeAll (encodeRowOf indices) others := by
  induction rows generalizing others with
  | nil =>
    rw [List.map_nil, eq_comm, List.map_eq_nil_iff] at h
    rw [h]
  | cons row rows ih =>
    cases others with
    | nil => cases h
    | cons other others =>
      rw [List.map_cons, List.map_cons, List.cons.injEq] at h
      simp only [rowKey, Prod.mk.injEq] at h
      obtain ⟨⟨hname, hdescriptor, hslot, hspan⟩, hrest⟩ := h
      rw [encodeAll_cons, encodeAll_cons, ih hrest]
      simp only [encodeRowOf, encodeRow, hname, hdescriptor, hslot, hspan]

/-- Rows that fit are written behind their count, each of them as ten bytes. -/
theorem encode_of_rows {entries : List (VariableEntry Span)}
    (hlt : (rowsOf entries).length < 2 ^ 16)
    (hrows : encodeAll (encodeRowOf indices) (rowsOf entries) = .ok written) :
    written.length = 10 * (rowsOf entries).length
      ∧ (LocalVariableTable.mk entries).encode indices
        = .ok (BigEndian.u16 (UInt16.ofNat (rowsOf entries).length) ++ written) := by
  have hten := length_of_encodeAll hrows fun row _ _ hrow => length_of_encodeRowOf hrow
  rw [List.map_const', List.sum_replicate_nat] at hten
  have hcount : narrow16 .localVariableRows (rowsOf entries).length
      = .ok (UInt16.ofNat (rowsOf entries).length) := narrow16_eq_ok_iff.mpr ⟨hlt, rfl⟩
  refine ⟨by omega, ?_⟩
  rw [encode_eq, encodeCounted]
  exact appendWritten_eq_ok_iff.mpr
    ⟨_, written, map_eq_ok_iff.mpr ⟨_, hcount, rfl⟩, hrows, rfl⟩

/-- Joining rows does not change what a table is written as. -/
theorem encode_group (entries : List (VariableEntry Span)) :
    (LocalVariableTable.mk (group entries)).encode indices
      = (LocalVariableTable.mk entries).encode indices := by
  have hkeys := map_rowKey_group entries
  have hlength := congrArg List.length hkeys
  rw [List.length_map, List.length_map] at hlength
  rw [encode_eq, encode_eq, encodeCounted, encodeCounted]
  show appendWritten (_ <$> narrow16 _ (rowsOf (group entries)).length)
    (encodeAll _ (rowsOf (group entries))) = _
  rw [hlength, encodeAll_congr_rowKey hkeys]
  rfl

/-- Take the next row off the input, if it is of use. -/
def readEntry (pool : Pool) : Reader (Option (VariableEntry Span)) := do
  let row ← VariableRow.read
  match row.entry pool with
  | .ok entry => return some entry
  | .error cause =>
    Reader.note (.droppedRow row.slot cause)
    return none

/-! ## Joining as the reader does -/

/-- Put an entry behind the entries so far, which stand last one first with their ranges the other
way round. -/
def joinBehind (found : List (VariableEntry Span)) (entry : VariableEntry Span) :
    List (VariableEntry Span) :=
  match found with
  | [] => [entry.reversed]
  | last :: others =>
    if last.isSameVariable entry then
      { last with ranges := entry.ranges.reverse ++ last.ranges } :: others
    else entry.reversed :: last :: others

/-- Joining from the first entry on comes to the same as joining from the last one on. -/
theorem foldl_joinBehind (entries others : List (VariableEntry Span)) (last : VariableEntry Span) :
    (entries.foldl joinBehind (last :: others)).reverse.map VariableEntry.reversed
      = others.reverse.map VariableEntry.reversed ++ group (last.reversed :: entries) := by
  induction entries generalizing last others with
  | nil =>
    rw [List.foldl_nil, List.reverse_cons, List.map_append]
    rfl
  | cons entry entries ih =>
    rw [List.foldl_cons, joinBehind, group, List.foldr_cons, List.foldr_cons, ← group]
    cases hsame : last.isSameVariable entry with
    | true =>
      have hlast : last.reversed.isSameVariable entry = true := hsame
      rw [if_pos rfl, ih, joinRow_joinRow_of_same hlast, group, List.foldr_cons, ← group,
        VariableEntry.reversed, List.reverse_append, List.reverse_reverse]
      rfl
    | false =>
      -- The next entry stays in front of what is behind it, so the last one is done.
      obtain ⟨ranges, behind, hbehind⟩ := exists_joinRow_eq entry (group entries)
      have hlast : joinRow last.reversed (joinRow entry (group entries))
          = last.reversed :: joinRow entry (group entries) := by
        rw [hbehind]
        exact joinRow_of_not_same hsame
      rw [if_neg (by decide), ih, List.reverse_cons, List.map_append, List.append_assoc, hlast,
        group, List.foldr_cons, ← group, VariableEntry.reversed_reversed]
      rfl

/-- Name and descriptor of an entry that was read are texts of the pool. -/
theorem typed_of_entry {row : VariableRow} {entry : VariableEntry Span}
    (h : row.entry pool = .ok entry) : entry.Typed pool := by
  simp only [VariableRow.entry, bind_eq_ok_iff, pure_eq_ok_iff] at h
  obtain ⟨name, -, descriptor, -, text, htext, type, htype, rfl⟩ := h
  exact bind_eq_ok_iff.mpr ⟨text, htext, htype⟩

/-- Joining entries keeps their types. -/
theorem typed_joinBehind {found : List (VariableEntry Span)} {row : VariableEntry Span}
    (hfound : ∀ entry ∈ found, entry.Typed pool) (hrow : row.Typed pool) :
    ∀ entry ∈ joinBehind found row, entry.Typed pool := by
  cases found with
  | nil => exact List.forall_mem_singleton.mpr hrow
  | cons last others =>
    rw [joinBehind]
    split
    · rw [List.forall_mem_cons] at hfound ⊢
      exact hfound
    · exact List.forall_mem_cons.mpr ⟨hrow, hfound⟩

/-- A row is put behind entries whose types are right as the entry of the row. -/
theorem addRow_eq {found : List (VariableEntry Span)}
    (hfound : ∀ entry ∈ found, entry.Typed pool) (row : VariableRow) :
    addRow pool found row = joinBehind found <$> row.entry pool := by
  unfold addRow VariableRow.entry
  simp only [map_bind, map_pure]
  congr 1
  funext name
  congr 1
  funext descriptor
  cases found with
  | nil => rfl
  | cons last others =>
    have hjoin : ∀ type, joinBehind (last :: others) ⟨name, descriptor, type, row.slot, [row.span]⟩
        = if last.name == name && last.descriptor == descriptor && last.slot == row.slot then
            { last with ranges := row.span :: last.ranges } :: others
          else ⟨name, descriptor, type, row.slot, [row.span]⟩ :: last :: others := fun _ => rfl
    simp only [hjoin]
    rw [extendLast?]
    by_cases hsame : (last.name == name && last.descriptor == descriptor && last.slot == row.slot)
        = true
    · simp only [if_pos hsame]
      -- The row joins the last entry, whose type was parsed off the same descriptor.
      simp only [Bool.and_eq_true, beq_iff_eq] at hsame
      obtain ⟨⟨-, rfl⟩, -⟩ := hsame
      obtain ⟨text, htext, htype⟩ :=
        bind_eq_ok_iff.mp (hfound last (List.mem_cons_self ..))
      rw [htext]
      show _ = FieldType.parse text >>= _
      rw [htype]
      rfl
    · simp only [if_neg hsame]

/-- What is put behind the entries so far is the entry of the row, if there is one. -/
theorem readRow_eq {found : List (VariableEntry Span)}
    (hfound : ∀ entry ∈ found, entry.Typed pool) : readRow pool found
      = (fun row? => row?.toList.foldl joinBehind found) <$> readEntry pool := by
  rw [readRow, readEntry, map_bind]
  congr 1
  funext row
  rw [addRow_eq hfound]
  cases row.entry pool with
  | ok entry => exact (map_pure _ _).symm
  | error cause =>
    show (Reader.note _ >>= fun _ => pure found) = _ <$> (Reader.note _ >>= fun _ => pure none)
    rw [map_bind]
    rfl

/-- An entry that was read comes from a row that is usable. -/
theorem exists_row_of_reads {input rest : Bytes} {row? : Option (VariableEntry Span)}
    {notices : List Notice} (hreads : (readEntry pool).Reads input row? rest notices) :
    ∀ entry ∈ row?, ∃ row : VariableRow, row.entry pool = .ok entry := by
  obtain ⟨row, middle, _, _, -, hentry, -⟩ := Reader.reads_bind.mp hreads
  split at hentry
  · rename_i found hfound
    obtain ⟨rfl, -⟩ := Reader.reads_pure.mp hentry
    rintro entry ⟨⟩
    exact ⟨row, hfound⟩
  · obtain ⟨_, _, _, _, -, hnone, -⟩ := Reader.reads_bind.mp hentry
    obtain ⟨rfl, -⟩ := Reader.reads_pure.mp hnone
    rintro entry ⟨⟩

/-- Rows are read as their entries are, and put behind those so far. -/
theorem times_readRow (count : Nat) {found : List (VariableEntry Span)}
    (hfound : ∀ entry ∈ found, entry.Typed pool) : Reader.times count (readRow pool) found
      = (fun entries => entries.reduceOption.foldl joinBehind found)
        <$> Reader.many count (readEntry pool) := by
  induction count generalizing found with
  | zero => simp [Reader.times_zero]
  | succ count ih =>
    rw [Reader.times_succ, Reader.many_succ, readRow_eq hfound, bind_map_left, map_bind]
    refine Reader.bind_congr_of_reads fun {_ row? _ _} hreads => ?_
    rw [Functor.map_map]
    cases row? with
    | none => exact ih hfound
    | some entry =>
      obtain ⟨row, hrow⟩ := exists_row_of_reads hreads entry rfl
      exact ih (typed_joinBehind hfound (typed_of_entry hrow))

/-- Reading a table row by row finds the entries of the rows, joined. -/
theorem read_eq (pool : Pool) : LocalVariableTable.read pool
    = (fun entries => ⟨group entries.reduceOption⟩) <$> Reader.sequence (readEntry pool) := by
  have hjoined : ∀ entries : List (VariableEntry Span),
      (entries.foldl joinBehind []).reverse.map VariableEntry.reversed = group entries := by
    intro entries
    cases entries with
    | nil => rfl
    | cons entry entries =>
      have hfold := foldl_joinBehind entries [] entry.reversed
      rwa [VariableEntry.reversed_reversed] at hfold
  rw [LocalVariableTable.read, Reader.sequence, map_bind]
  congr 1
  funext count
  rw [times_readRow count.toNat (List.forall_mem_nil _), bind_map_left]
  simp only [hjoined, bind_pure_comp]

/-! ## What was read is written back -/

/-- A row is of use exactly if its entry has the indices of the row and is sound. -/
theorem entry_eq_ok_iff (h : pool.LaidOut indices) {row : VariableRow}
    {entry : VariableEntry Span} : row.entry pool = .ok entry
      ↔ indices.indexOf entry.name.id = .ok row.name
        ∧ indices.indexOf entry.descriptor.id = .ok row.descriptor ∧ entry.slot = row.slot
        ∧ entry.ranges = [row.span] ∧ entry.Sound pool := by
  simp only [VariableRow.entry, bind_eq_ok_iff, h.utf8At_iff, pure_eq_ok_iff,
    FieldType.parse_eq_ok_iff]
  constructor
  · rintro ⟨name, ⟨hname, hnameKeeps⟩, descriptor, ⟨hdescriptor, hkeeps⟩, text, htext, type,
      ⟨hwell, rfl⟩, rfl⟩
    refine ⟨hname, hdescriptor, rfl, rfl, hnameKeeps, hkeeps, htext, hwell, ?_, ?_⟩
    · exact List.cons_ne_nil row.span []
    · intro span hspan
      obtain rfl := List.mem_singleton.mp hspan
      exact row.span_lt
  · rintro ⟨hname, hdescriptor, hslot, hranges, hsound⟩
    refine ⟨entry.name, ⟨hname, hsound.name_keeps⟩, entry.descriptor,
      ⟨hdescriptor, hsound.descriptor_keeps⟩, _, hsound.text_eq, entry.type,
      ⟨hsound.wellFormed, rfl⟩, ?_⟩
    rw [← hslot, ← hranges]

/-- The entry of a row is written as the row. -/
theorem encodeRowOf_of_entry (h : pool.LaidOut indices) {row : VariableRow}
    {entry : VariableEntry Span} (hentry : row.entry pool = .ok entry) :
    encodeRowOf indices (entry, row.span) = .ok row.bytes := by
  obtain ⟨hname, hdescriptor, hslot, -⟩ := (entry_eq_ok_iff h).mp hentry
  refine encodeRowOf_eq_ok_iff.mpr ⟨row, rfl, hname, hdescriptor, hslot, rfl, ?_⟩
  show row.start.toNat + row.length.toNat + 1 - row.start.toNat - 1 = _
  omega

/-- The rows of the entry of a row, if there is one. -/
def writeEntry (indices : Indices) (row? : Option (VariableEntry Span)) : Except Error Bytes :=
  encodeAll (encodeRowOf indices) (rowsOf row?.toList)

theorem length_of_reads_readEntry {input rest : Bytes} {row? : Option (VariableEntry Span)}
    {notices : List Notice} (hreads : (readEntry pool).Reads input row? rest notices) :
    input.length = 10 + rest.length := by
  obtain ⟨row, middle, _, _, hrow, hentry, -⟩ := Reader.reads_bind.mp hreads
  obtain ⟨rfl, -⟩ := VariableRow.reads_read_iff.mp hrow
  have hmiddle : rest = middle := by
    split at hentry
    · exact (Reader.reads_pure.mp hentry).2.1
    · obtain ⟨_, _, _, _, hnote, hnone, -⟩ := Reader.reads_bind.mp hentry
      rw [(Reader.reads_pure.mp hnone).2.1, (Reader.reads_note.mp hnote).1]
  rw [hmiddle, List.length_append, VariableRow.length_bytes]

/-- A usable row is written as the ten bytes it was read from. -/
theorem rewrites_readEntry (h : pool.LaidOut indices) :
    (readEntry pool).Rewrites
      (fun row? => ∀ entry ∈ row?, entry.ranges.length = 1 ∧ entry.Sound pool)
      (fun _ => True) (writeEntry indices) := by
  constructor
  intro input row? rest notices hreads
  obtain ⟨row, middle, _, _, hrow, hentry, rfl⟩ := Reader.reads_bind.mp hreads
  obtain ⟨rfl, rfl⟩ := VariableRow.reads_read_iff.mp hrow
  split at hentry
  · rename_i entry hfound
    obtain ⟨rfl, rfl, rfl⟩ := Reader.reads_pure.mp hentry
    obtain ⟨-, -, -, hranges, hsound⟩ := (entry_eq_ok_iff h).mp hfound
    refine ⟨?_, row.bytes, rfl, .exact ?_ quiet_nil⟩
    · intro found hfound
      cases hfound
      exact ⟨by rw [hranges]; rfl, hsound⟩
    · have hwrite := encodeRowOf_of_entry h hfound
      rw [writeEntry, Option.toList_some, rowsOf_cons, hranges, List.map_singleton,
        List.singleton_append, encodeAll_cons, hwrite]
      exact appendWritten_nil _
  · rename_i cause _
    obtain ⟨_, _, _, _, hnote, hnone, rfl⟩ := Reader.reads_bind.mp hentry
    obtain ⟨rfl, rfl⟩ := Reader.reads_note.mp hnote
    obtain ⟨rfl, rfl, rfl⟩ := Reader.reads_pure.mp hnone
    refine ⟨by simp, row.bytes, rfl, ?_⟩
    -- Nothing is written for a row that is left out, and leaving it out is told.
    refine ⟨fun _ => ⟨[], rfl, Nat.zero_le _, ?_⟩, fun hnot => absurd trivial hnot⟩
    refine iff_of_false (fun heq => ?_) fun hquiet => ?_
    · have hlength := congrArg List.length heq
      rw [VariableRow.length_bytes] at hlength
      cases hlength
    · exact hquiet (.droppedRow row.slot cause) (by simp) (.row row.slot cause)

/-- Writing what was read writes the rows of the usable entries alone. -/
theorem encodeAll_writeEntry (entries : List (Option (VariableEntry Span))) :
    encodeAll (writeEntry indices) entries
      = encodeAll (encodeRowOf indices) (rowsOf entries.reduceOption) := by
  induction entries with
  | nil => rfl
  | cons row? entries ih =>
    rw [encodeAll_cons, ih]
    cases row? with
    | none => exact nil_appendWritten _
    | some entry =>
      rw [List.reduceOption_cons_of_some, rowsOf_cons, encodeAll_append, writeEntry,
        Option.toList_some, rowsOf_cons, rowsOf, rows, List.flatMap_nil, List.append_nil]

/-- Entries of one range each have as many rows as there are entries. -/
theorem length_rowsOf {entries : List (VariableEntry Span)}
    (h : ∀ entry ∈ entries, entry.ranges.length = 1) :
    (rowsOf entries).length = entries.length := by
  induction entries with
  | nil => rfl
  | cons entry entries ih =>
    rw [List.forall_mem_cons] at h
    rw [rowsOf_cons, List.length_append, List.length_map, h.1, ih h.2, List.length_cons,
      Nat.add_comm]

/-- What holds of entries, and of two that are joined if it holds of both, holds after joining. -/
theorem forall_group {P : VariableEntry Span → Prop}
    (hjoin : ∀ row next : VariableEntry Span, P row → P next →
      P { row with ranges := row.ranges ++ next.ranges })
    {entries : List (VariableEntry Span)} (h : ∀ entry ∈ entries, P entry) :
    ∀ entry ∈ group entries, P entry := by
  induction entries with
  | nil => exact h
  | cons row entries ih =>
    rw [List.forall_mem_cons] at h
    have hothers := ih h.2
    rw [group, List.foldr_cons, ← group]
    cases hgroup : group entries with
    | nil => exact List.forall_mem_singleton.mpr h.1
    | cons next others =>
      rw [hgroup, List.forall_mem_cons] at hothers
      rw [joinRow]
      split
      · exact List.forall_mem_cons.mpr ⟨hjoin row next h.1 hothers.1, hothers.2⟩
      · exact List.forall_mem_cons.mpr ⟨h.1, List.forall_mem_cons.mpr hothers⟩

/-- A joined entry has the name and the type of the first, and the ranges of both. -/
theorem sound_append {row next : VariableEntry Span} (hrow : row.Sound pool)
    (hnext : next.Sound pool) :
    VariableEntry.Sound pool { row with ranges := row.ranges ++ next.ranges } where
  name_keeps := hrow.name_keeps
  descriptor_keeps := hrow.descriptor_keeps
  text_eq := hrow.text_eq
  wellFormed := hrow.wellFormed
  ranges_ne := List.append_ne_nil_of_left_ne_nil hrow.ranges_ne next.ranges
  range_lt := List.forall_mem_append.mpr ⟨hrow.range_lt, hnext.range_lt⟩

/-- Joining rows of one variable keeps the entries sound. -/
theorem sound_group {entries : List (VariableEntry Span)}
    (h : ∀ entry ∈ entries, entry.Sound pool) : ∀ entry ∈ group entries, entry.Sound pool :=
  forall_group (fun _ _ => sound_append) h

/-- What holds of the entries of rows, and of joined ones, holds of all entries that are read. -/
theorem forall_of_reads_read {P : VariableEntry Span → Prop}
    (hrow : ∀ (row : VariableRow) entry, row.entry pool = .ok entry → P entry)
    (hjoin : ∀ row next : VariableEntry Span, P row → P next →
      P { row with ranges := row.ranges ++ next.ranges })
    {input rest : Bytes} {table : LocalVariableTable} {notices : List Notice}
    (hreads : (LocalVariableTable.read pool).Reads input table rest notices) :
    ∀ entry ∈ table.entries, P entry := by
  rw [read_eq] at hreads
  obtain ⟨entries, hentries, rfl⟩ := Reader.reads_map.mp hreads
  obtain ⟨count, middle, _, _, -, hmany, -⟩ := Reader.reads_bind.mp hentries
  have hrows := Reader.forall_of_reads_many exists_row_of_reads hmany
  refine forall_group hjoin fun entry hentry => ?_
  obtain ⟨row, hentryOk⟩ := hrows (some entry) (List.reduceOption_mem_iff.mp hentry) entry rfl
  exact hrow row entry hentryOk

/-- A table that was read is written as its rows of use, so its bytes come back unless a row was
left out. -/
theorem rewrites_read (h : pool.LaidOut indices) :
    (LocalVariableTable.read pool).Rewrites
      (fun table => ∀ entry ∈ table.entries, entry.Sound pool) (fun _ => True)
      (LocalVariableTable.encode indices) := by
  constructor
  intro input table rest notices hreads
  rw [read_eq] at hreads
  obtain ⟨entries, hentries, rfl⟩ := Reader.reads_map.mp hreads
  obtain ⟨count, middle, _, behind, hcount, hmany, rfl⟩ := Reader.reads_bind.mp hentries
  obtain ⟨rfl, rfl⟩ := Reader.reads_u16.mp hcount
  have hlength := Reader.length_of_reads_many length_of_reads_readEntry hmany
  obtain ⟨⟨hentriesLength, hgood⟩, used, rfl, hused⟩ :=
    ((rewrites_readEntry h).many count.toNat).rewritten hmany
  have hsound : ∀ entry ∈ entries.reduceOption, entry.ranges.length = 1 ∧ entry.Sound pool :=
    fun entry hentry => hgood (some entry) (List.reduceOption_mem_iff.mp hentry) entry rfl
  refine ⟨sound_group fun entry hentry => (hsound entry hentry).2,
    BigEndian.u16 count ++ used, (List.append_assoc ..).symm, ?_⟩
  -- The rows that are written are no more than those that were read, and as long, so the bytes are
  -- the same exactly if the rows are as many.
  have hrows := length_rowsOf fun entry hentry => (hsound entry hentry).1
  have hle := List.reduceOption_length_le entries
  have hlt : (rowsOf entries.reduceOption).length < 2 ^ 16 := by
    have hcountLt := count.toNat_lt
    omega
  obtain ⟨bytes, hbytes, -, hiff⟩ := hused.of_fits fun _ _ => trivial
  rw [encodeAll_writeEntry] at hbytes
  obtain ⟨hten, hencode⟩ := encode_of_rows hlt hbytes
  rw [List.length_append] at hlength
  rw [encode_group, hencode]
  refine ⟨fun _ => ⟨_, rfl, ?_, ?_⟩, fun hnot => absurd trivial hnot⟩
  · simp only [List.length_append, BigEndian.length_u16]
    omega
  · rw [List.nil_append, ← hiff]
    constructor
    · intro heq
      exact (List.append_inj heq (by simp only [BigEndian.length_u16])).2
    · rintro rfl
      have hall : (rowsOf entries.reduceOption).length = count.toNat := by omega
      rw [hall, UInt16.ofNat_toNat]

/-! ## What was written is read again -/

/-- A row that was written is read as the entry it is a row of, with its one range. -/
theorem rereads_readEntry_self (h : pool.LaidOut indices) :
    (readEntry pool).Rereads (fun row => row.1.Sound pool ∧ row.2.start < row.2.stop)
      (encodeRowOf indices) (fun row => some (VariableEntry.single row)) := by
  constructor
  rintro ⟨entry, span⟩ written ⟨hsound, hlt⟩ hwrite
  obtain ⟨row, rfl, hname, hdescriptor, hslot, hstart, hlength⟩ := encodeRowOf_eq_ok_iff.mp hwrite
  -- The length of a range was written, and its end is found again behind the start.
  have hspan : span = row.span := by
    obtain ⟨start, stop⟩ := span
    simp only at hstart hlength hlt
    rw [VariableRow.span, Span.mk.injEq]
    omega
  have hentry : row.entry pool = .ok (VariableEntry.single (entry, span)) := by
    refine (entry_eq_ok_iff h).mpr ⟨hname, hdescriptor, hslot, congrArg ([·]) hspan, ?_⟩
    exact {
      name_keeps := hsound.name_keeps
      descriptor_keeps := hsound.descriptor_keeps
      text_eq := hsound.text_eq
      wellFormed := hsound.wellFormed
      ranges_ne := List.cons_ne_nil span []
      range_lt := List.forall_mem_singleton.mpr hlt }
  refine ⟨[], quiet_nil, fun rest => Reader.reads_bind.mpr
    ⟨row, rest, [], [], VariableRow.reads_read_iff.mpr ⟨rfl, rfl⟩, ?_, rfl⟩⟩
  rw [hentry]
  exact Reader.reads_pure.mpr ⟨rfl, rfl, rfl⟩

/-- In a pool that mirrors the one it was written in, it is read with the counterparts of its
handles. -/
theorem rereads_readEntry (h : again.Mirrors indices later pool) :
    (readEntry again).Rereads
      (fun row => row.1.Sound pool ∧ row.2.start < row.2.stop) (encodeRowOf indices)
      (fun row => some ((VariableEntry.single row).mapHandles (again.counterpart indices))) := by
  constructor
  rintro ⟨entry, span⟩ written ⟨hsound, hlt⟩ hwrite
  obtain ⟨row, rfl, hname, hdescriptor, hslot, hstart, hlength⟩ := encodeRowOf_eq_ok_iff.mp hwrite
  have hnameBytes := Pool.LaidOut.encode_eq_ok_iff.mpr ⟨_, hname, rfl⟩
  have hdescriptorBytes := Pool.LaidOut.encode_eq_ok_iff.mpr ⟨_, hdescriptor, rfl⟩
  have hmapped : (entry.mapHandles (again.counterpart indices)).Sound again := {
    name_keeps := h.keeps_counterpart hnameBytes hsound.name_keeps
    descriptor_keeps := h.keeps_counterpart hdescriptorBytes hsound.descriptor_keeps
    text_eq := h.text_counterpart hdescriptorBytes (.inl hsound.text_eq)
    wellFormed := hsound.wellFormed
    ranges_ne := hsound.ranges_ne
    range_lt := hsound.range_lt }
  have hagain : encodeRowOf later (entry.mapHandles (again.counterpart indices), span)
      = .ok row.bytes :=
    encodeRowOf_eq_ok_iff.mpr ⟨row, rfl, h.indexOf_counterpart hname,
      h.indexOf_counterpart hdescriptor, hslot, hstart, hlength⟩
  exact (rereads_readEntry_self h.after).reads
    (entry.mapHandles (again.counterpart indices), span) ⟨hmapped, hlt⟩ hagain

/-- A table with its handles replaced, and neighbouring entries about the same variable joined. -/
def mapJoined (replace : ConstantId → ConstantId) (table : LocalVariableTable) :
    LocalVariableTable :=
  ⟨group (table.entries.map (VariableEntry.mapHandles replace))⟩

/-- If all elements are of use, none is left out. -/
theorem reduceOption_map_some {α β : Type} (make : α → β) (elements : List α) :
    (elements.map fun element => some (make element)).reduceOption = elements.map make := by
  rw [List.reduceOption, List.filterMap_map]
  exact congrFun List.filterMap_eq_map elements

/-- Replacing handles and taking entries apart can be done in either order. -/
theorem map_single_mapHandles (replace : ConstantId → ConstantId)
    (entries : List (VariableEntry Span)) :
    (rowsOf (entries.map (VariableEntry.mapHandles replace))).map VariableEntry.single
      = (rowsOf entries).map fun row => (VariableEntry.single row).mapHandles replace := by
  induction entries with
  | nil => rfl
  | cons entry entries ih =>
    rw [List.map_cons, rowsOf_cons, rowsOf_cons, List.map_append, List.map_append, ih,
      List.map_map, List.map_map]
    rfl

/-- The rows of sound entries are sound, and their ranges are not empty. -/
theorem sound_rows {table : LocalVariableTable} (h : ∀ entry ∈ table.entries, entry.Sound pool) :
    ∀ row ∈ table.rows, row.1.Sound pool ∧ row.2.start < row.2.stop := by
  intro row hrow
  obtain ⟨entry, hentry, hmem⟩ := List.mem_flatMap.mp hrow
  obtain ⟨span, hspan, rfl⟩ := List.mem_map.mp hmem
  exact ⟨h entry hentry, (h entry hentry).range_lt span hspan⟩

/-- A table that was written is read with neighbouring entries about one variable joined. -/
theorem rereads_read_self (h : pool.LaidOut indices) :
    (LocalVariableTable.read pool).Rereads
      (fun table => ∀ entry ∈ table.entries, entry.Sound pool)
      (LocalVariableTable.encode indices) (fun table => ⟨group table.entries⟩) := by
  rw [read_eq]
  refine ((rereads_readEntry_self h).sequence .localVariableRows).map _ rows
    (fun table => sound_rows) encode_eq ?_
  intro table hsound
  rw [reduceOption_map_some, ← group_singles fun entry hentry => (hsound entry hentry).ranges_ne]
  rfl

/-- A table read back over the pool that was written has its rows joined and its handles exchanged.
-/
theorem rereads_read (h : again.Mirrors indices later pool) :
    (LocalVariableTable.read again).Rereads
      (fun table => ∀ entry ∈ table.entries, entry.Sound pool)
      (LocalVariableTable.encode indices) (mapJoined (again.counterpart indices)) := by
  rw [read_eq]
  refine ((rereads_readEntry h).sequence .localVariableRows).map _ rows
    (fun table => sound_rows) encode_eq ?_
  intro table hsound
  have hranges : ∀ entry ∈ table.entries.map
      (VariableEntry.mapHandles (again.counterpart indices)), entry.ranges ≠ [] :=
    List.forall_mem_map.mpr fun entry hentry => (hsound entry hentry).ranges_ne
  rw [reduceOption_map_some, mapJoined, ← group_singles hranges, map_single_mapHandles]
  rfl

end LocalVariableTable

end ClassFormat
