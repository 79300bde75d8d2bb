import ClassFormat.Proofs.Attribute.LocalVariables
import ClassFormat.Proofs.Pool.Kinds
import Mathlib.Data.List.Chain
/-!
# Rows that are of no use

A local variable table only helps debugging, so a row that cannot be made sense of is left out with
a notice, and the rest of the table is read. A row is `Usable` if its name is a text and its
descriptor is a string that is the descriptor of a type. These are exactly the rows that are found
again in the table, in order, whatever else stands between them: a row that is left out neither
splits nor joins the runs of rows around it.

A text that the pool keeps as units is not a string, even if its units are those of one.
-/

namespace ClassFormat

namespace Pool

variable {pool : Pool} {index : UInt16}

/-- The constant at an index is the one its handle leads to. -/
theorem constantAt_eq_ok_iff {constant : Constant} : pool.constantAt index = .ok constant
    ↔ ∃ id, pool.idAt index = .ok id ∧ pool.constant id = .ok constant :=
  bind_eq_ok_iff

/-- A text index is accepted exactly if a text with a string stands there. -/
theorem utf8At_eq_ok_iff {name : Utf8Id} : pool.utf8At index = .ok name
    ↔ pool.idAt index = .ok name.id ∧ pool.Leads [.utf8] name.id := by
  constructor
  · intro h
    refine ⟨?_, leads_of_utf8At h⟩
    obtain ⟨id, hid, rfl⟩ := map_eq_ok_iff.mp h
    obtain ⟨found, hfound, hconstant⟩ := bind_eq_ok_iff.mp hid
    obtain ⟨constant, -, htag⟩ := bind_eq_ok_iff.mp hconstant
    split at htag
    · cases htag
      exact hfound
    · cases htag
  · rintro ⟨hid, constant, hconstant, htag⟩
    refine map_eq_ok_iff.mpr ⟨name.id, ?_, rfl⟩
    rw [idWithTag, hid]
    show (pool.constant name.id >>= _) = _
    rw [hconstant]
    exact if_pos htag

end Pool

namespace VariableRow

variable {pool : Pool} {row : VariableRow}

/-- A row is of use if its name is a text, and its descriptor a string that describes a type. -/
structure Usable (pool : Pool) (row : VariableRow) : Prop where
  name : ∃ constant, pool.constantAt row.name = .ok constant ∧ constant.tag = .utf8
  descriptor : ∃ text type, pool.constantAt row.descriptor = .ok (.utf8 text)
    ∧ FieldType.parse text = .ok type

/-- A row is usable when an entry can be made of it, and only then. -/
theorem usable_iff : row.Usable pool ↔ ∃ entry, row.entry pool = .ok entry := by
  simp only [entry, bind_eq_ok_iff, pure_eq_ok_iff]
  constructor
  · rintro ⟨⟨constant, hname, htag⟩, text, type, hdescriptor, htype⟩
    obtain ⟨name, hnameId, hconstant⟩ := Pool.constantAt_eq_ok_iff.mp hname
    obtain ⟨descriptor, hdescriptorId, htext⟩ := Pool.constantAt_eq_ok_iff.mp hdescriptor
    have hnameAt : pool.utf8At row.name = .ok ⟨name⟩ :=
      Pool.utf8At_eq_ok_iff.mpr ⟨hnameId, constant, hconstant, List.mem_singleton.mpr htag⟩
    have hdescriptorAt : pool.utf8At row.descriptor = .ok ⟨descriptor⟩ :=
      Pool.utf8At_eq_ok_iff.mpr ⟨hdescriptorId, _, htext, List.mem_singleton_self _⟩
    exact ⟨_, ⟨name⟩, hnameAt, ⟨descriptor⟩, hdescriptorAt, text, Pool.text_of_constant htext, type,
      htype, rfl⟩
  · rintro ⟨entry, name, hname, descriptor, hdescriptor, text, htext, type, htype, -⟩
    obtain ⟨hnameId, constant, hconstant, htag⟩ := Pool.utf8At_eq_ok_iff.mp hname
    obtain ⟨hdescriptorId, -⟩ := Pool.utf8At_eq_ok_iff.mp hdescriptor
    exact {
      name := ⟨constant, Pool.constantAt_eq_ok_iff.mpr ⟨name.id, hnameId, hconstant⟩,
        List.mem_singleton.mp htag⟩
      descriptor := ⟨text, type, Pool.constantAt_eq_ok_iff.mpr
        ⟨descriptor.id, hdescriptorId, Pool.constant_of_text htext⟩, htype⟩ }

/-- A row that is not usable has a cause, which the notice about it names. -/
theorem exists_error (h : ¬ row.Usable pool) : ∃ cause, row.entry pool = .error cause := by
  rw [usable_iff] at h
  cases hentry : row.entry pool with
  | ok entry => exact absurd ⟨entry, hentry⟩ h
  | error cause => exact ⟨cause, rfl⟩

instance (pool : Pool) : DecidablePred (Usable pool) := fun row =>
  decidable_of_iff ((row.entry pool).toOption.isSome = true) <| by
    rw [usable_iff]
    cases row.entry pool <;> simp [Except.toOption]

/-- The notice of a row that is left out. -/
def notice? (pool : Pool) (row : VariableRow) : Option Notice :=
  match row.entry pool with
  | .ok _ => none
  | .error cause => some (.droppedRow row.slot cause)

end VariableRow

namespace LocalVariableTable

variable {pool : Pool} {indices : Indices} {rows : List VariableRow}

/-! ## What is read -/

/-- The entries of the rows that are of use. -/
def entriesOf (pool : Pool) (rows : List VariableRow) : List (VariableEntry Span) :=
  rows.filterMap fun row => (row.entry pool).toOption

/-- Reading a row always succeeds: a row that cannot be used leaves a notice in place of an entry.
-/
theorem reads_readEntry (row : VariableRow) (rest : Bytes) :
    (readEntry pool).Reads (row.bytes ++ rest) (row.entry pool).toOption rest
      (row.notice? pool).toList := by
  refine Reader.reads_bind.mpr ⟨row, rest, [], _, VariableRow.reads_read_iff.mpr ⟨rfl, rfl⟩, ?_,
    rfl⟩
  rw [VariableRow.notice?]
  cases row.entry pool with
  | ok entry => exact Reader.reads_pure.mpr ⟨rfl, rfl, rfl⟩
  | error cause =>
    exact Reader.reads_bind.mpr ⟨(), rest, _, [], Reader.reads_note.mpr ⟨rfl, rfl⟩,
      Reader.reads_pure.mpr ⟨rfl, rfl, rfl⟩, rfl⟩

/-- The rows of a table one after the other, each with its entry or its notice. -/
theorem reads_many_readEntry (rows : List VariableRow) (rest : Bytes) :
    (Reader.many rows.length (readEntry pool)).Reads (rows.flatMap VariableRow.bytes ++ rest)
      (rows.map fun row => (row.entry pool).toOption) rest
      (rows.filterMap (VariableRow.notice? pool)) := by
  induction rows with
  | nil => exact Reader.reads_many_zero.mpr ⟨rfl, rfl, rfl⟩
  | cons row rows ih =>
    rw [List.flatMap_cons, List.append_assoc]
    refine Reader.reads_many_succ.mpr ⟨_, _, _, _, _, rfl, reads_readEntry row _, ih, ?_⟩
    rw [List.filterMap_cons]
    cases row.notice? pool <;> rfl

/-- Any rows are read, whether they are of use or not. -/
theorem reads_rows {count : UInt16} (hcount : rows.length = count.toNat) (rest : Bytes) :
    (LocalVariableTable.read pool).Reads
      (BigEndian.u16 count ++ rows.flatMap VariableRow.bytes ++ rest)
      ⟨group (entriesOf pool rows)⟩ rest (rows.filterMap (VariableRow.notice? pool)) := by
  have hrows := @reads_many_readEntry pool rows rest
  rw [hcount] at hrows
  rw [read_eq, List.append_assoc]
  refine Reader.reads_map.mpr ⟨_, Reader.reads_bind.mpr ⟨count, _, [], _,
    Reader.reads_u16.mpr ⟨rfl, rfl⟩, hrows, rfl⟩, ?_⟩
  rw [List.reduceOption, List.filterMap_map]
  rfl

/-! ## Which rows are found again -/

/-- If something is found at exactly the elements that are kept, what is found goes along with
these. -/
theorem forall₂_filter_filterMap {α β : Type} {p : α → Prop} [DecidablePred p] {f : α → Option β}
    {R : α → β → Prop} (hkept : ∀ a, p a → ∃ b, f a = some b ∧ R a b)
    (hleft : ∀ a, ¬ p a → f a = none) (elements : List α) :
    List.Forall₂ R (elements.filter p) (elements.filterMap f) := by
  induction elements with
  | nil => exact .nil
  | cons a elements ih =>
    rw [List.filter_cons]
    by_cases ha : p a
    · obtain ⟨b, hb, hR⟩ := hkept a ha
      rw [if_pos (decide_eq_true ha), List.filterMap_cons_some hb]
      exact .cons hR ih
    · rw [if_neg (by simpa using ha), List.filterMap_cons_none (hleft a ha)]
      exact ih

/-- The entries are those of the usable rows, in their order. -/
theorem forall₂_entriesOf (pool : Pool) (rows : List VariableRow) :
    List.Forall₂ (fun row entry => row.entry pool = .ok entry) (rows.filter (·.Usable pool))
      (entriesOf pool rows) := by
  refine forall₂_filter_filterMap (fun row husable => ?_) (fun row hunusable => ?_) rows
  · obtain ⟨entry, hentry⟩ := VariableRow.usable_iff.mp husable
    exact ⟨entry, toOption_eq_some_iff.mpr hentry, hentry⟩
  · obtain ⟨cause, hcause⟩ := VariableRow.exists_error hunusable
    rw [hcause]
    rfl

/-- The notices are about the other rows, in their order, each with its slot and its cause. -/
theorem forall₂_notices (pool : Pool) (rows : List VariableRow) :
    List.Forall₂ (fun row notice => ∃ cause, row.entry pool = .error cause
        ∧ notice = .droppedRow row.slot cause) (rows.filter (¬ ·.Usable pool))
      (rows.filterMap (VariableRow.notice? pool)) := by
  refine forall₂_filter_filterMap (fun row hunusable => ?_) (fun row husable => ?_) rows
  · obtain ⟨cause, hcause⟩ := VariableRow.exists_error hunusable
    refine ⟨.droppedRow row.slot cause, ?_, cause, hcause, rfl⟩
    rw [VariableRow.notice?, hcause]
  · obtain ⟨entry, hentry⟩ := VariableRow.usable_iff.mp (not_not.mp husable)
    rw [VariableRow.notice?, hentry]

/-- Neighbouring entries of a joined table are about different variables. -/
theorem isChain_group (entries : List (VariableEntry Span)) :
    (group entries).IsChain fun entry next => entry.subject ≠ next.subject := by
  induction entries with
  | nil => exact .nil
  | cons row entries ih =>
    rw [group, List.foldr_cons, ← group]
    cases hgroup : group entries with
    | nil => exact .singleton row
    | cons next others =>
      rw [hgroup] at ih
      cases hsame : row.isSameVariable next with
      | true =>
        -- The first entry gets more ranges, but is about the same variable as before.
        rw [joinRow_of_same hsame]
        rw [List.isChain_cons] at ih ⊢
        have hsubject := VariableEntry.isSameVariable_iff.mp hsame
        refine ⟨fun other hother => ?_, ih.2⟩
        show row.subject ≠ other.subject
        rw [hsubject]
        exact ih.1 other hother
      | false =>
        rw [joinRow_of_not_same hsame]
        refine List.isChain_cons_cons.mpr ⟨fun heq => ?_, ih⟩
        rw [VariableEntry.isSameVariable_iff.mpr heq] at hsame
        cases hsame

end LocalVariableTable

/-- What a row says, with its indices looked up: a name, a descriptor, a slot and a range. -/
def VariableRow.Says (pool : Pool) (row : VariableRow)
    (key : Utf8Id × Utf8Id × UInt16 × Span) : Prop :=
  pool.utf8At row.name = .ok key.1 ∧ pool.utf8At row.descriptor = .ok key.2.1
    ∧ row.slot = key.2.2.1 ∧ row.span = key.2.2.2

namespace LocalVariableTable

variable {pool : Pool} {indices : Indices} {rows : List VariableRow}
  {entries : List (VariableEntry Span)}

/-- An entry made of a row says what the row says. -/
theorem says_of_entry {row : VariableRow} {entry : VariableEntry Span}
    (hentry : row.entry pool = .ok entry) : row.Says pool (rowKey (entry, row.span)) := by
  simp only [VariableRow.entry, bind_eq_ok_iff, pure_eq_ok_iff] at hentry
  obtain ⟨name, hname, descriptor, hdescriptor, text, -, type, -, rfl⟩ := hentry
  exact ⟨hname, hdescriptor, rfl, rfl⟩

/-- The rows of the entries of rows say what these say. -/
theorem forall₂_says (h : List.Forall₂ (fun row entry => row.entry pool = .ok entry) rows entries) :
    List.Forall₂ (VariableRow.Says pool) rows ((rowsOf entries).map rowKey) := by
  induction h with
  | nil => exact .nil
  | cons hentry _ ih =>
    rw [rowsOf_cons, VariableRow.ranges_of_entry hentry]
    exact .cons (says_of_entry hentry) ih

/-- The rows of the entries of rows are written as these. -/
theorem encodeAll_rowsOf (hlaid : pool.LaidOut indices)
    (h : List.Forall₂ (fun row entry => row.entry pool = .ok entry) rows entries) :
    encodeAll (encodeRowOf indices) (rowsOf entries) = .ok (rows.flatMap VariableRow.bytes) := by
  induction h with
  | nil => exact encodeAll_nil
  | cons hentry _ ih =>
    rw [rowsOf_cons, VariableRow.ranges_of_entry hentry, List.map_singleton,
      List.singleton_append, encodeAll_cons, ih, encodeRowOf_of_entry hlaid hentry]
    rfl

/-- Reading a table of any rows succeeds and takes them all. What is found are the rows that are of
use, in order, and there is a notice of each other row. Neighbouring entries are about different
variables. The table is written as the rows of use behind their number. -/
theorem reads_usable_rows (hreachable : pool.Reachable) (hresolve : pool.resolve = .ok indices)
    {count : UInt16} (hcount : rows.length = count.toNat) : ∃ table notices,
    (∀ rest, (LocalVariableTable.read pool).Reads
      (BigEndian.u16 count ++ rows.flatMap VariableRow.bytes ++ rest) table rest notices)
    ∧ List.Forall₂ (VariableRow.Says pool) (rows.filter (·.Usable pool)) (table.rows.map rowKey)
    ∧ List.Forall₂ (fun row notice => ∃ cause, row.entry pool = .error cause
        ∧ notice = .droppedRow row.slot cause) (rows.filter (¬ ·.Usable pool)) notices
    ∧ (table.entries.IsChain fun entry next => entry.subject ≠ next.subject)
    ∧ (∀ entry ∈ table.entries, entry.Sound pool)
    ∧ table.encode indices
      = .ok (BigEndian.u16 (UInt16.ofNat (rows.filter (·.Usable pool)).length)
        ++ (rows.filter (·.Usable pool)).flatMap VariableRow.bytes) := by
  have h : pool.LaidOut indices := ⟨hreachable.valid, hresolve⟩
  have hentries := forall₂_entriesOf pool rows
  have hsays := forall₂_says hentries
  refine ⟨⟨group (entriesOf pool rows)⟩, _, reads_rows hcount, ?_, forall₂_notices pool rows,
    isChain_group _, ?_, ?_⟩
  · rw [← map_rowKey_group] at hsays
    exact hsays
  · refine sound_group fun entry hentry => ?_
    obtain ⟨row, -, hrow⟩ := List.mem_filterMap.mp hentry
    obtain ⟨-, -, -, -, hsound⟩ := (entry_eq_ok_iff h).mp (toOption_eq_some_iff.mp hrow)
    exact hsound
  · have hlength := hsays.length_eq
    rw [List.length_map] at hlength
    have hle := List.length_filter_le (·.Usable pool) rows
    have hlt := count.toNat_lt
    rw [encode_group, hlength]
    exact (encode_of_rows (by omega) (encodeAll_rowsOf h hentries)).2

end LocalVariableTable

/-- A pool with one constant. -/
def Pool.ofOne (constant : Constant) : Pool := (Pool.empty ⟨0⟩).withNew constant

/-- A pool with one constant that refers to nothing can be built. -/
theorem Pool.reachable_ofOne {constant : Constant} (h : constant.references = []) :
    (ofOne constant).Reachable := by
  have hadd : (Operation.add constant).edit.apply (Pool.empty ⟨0⟩)
      = (.ok (intern constant (Pool.empty ⟨0⟩)).1, (intern constant (Pool.empty ⟨0⟩)).2) := by
    show (Pool.add constant).apply _ = _
    rw [Pool.add, h]
    rfl
  have hnew : (Pool.empty ⟨0⟩).interned[constant]? = none := Std.HashMap.getElem?_empty
  have hafter : (Operation.add constant).after (Pool.empty ⟨0⟩) = ofOne constant := by
    rw [Operation.after, hadd, intern_of_new hnew]
    rfl
  rw [← hafter]
  exact .operate _ (.empty ⟨0⟩)

namespace LocalVariableTable

/-- A row with a name and a type is found, and one whose name has no constant is left out. -/
theorem reads_usable_rows_of_int : (Pool.ofOne (.utf8 "I")).Reachable
    ∧ ∃ indices table notices, (Pool.ofOne (.utf8 "I")).resolve = .ok indices
      ∧ (∀ rest, (LocalVariableTable.read (Pool.ofOne (.utf8 "I"))).Reads
        ([0, 2, 0, 0, 0, 4, 0, 9, 0, 1, 0, 2, 0, 0, 0, 4, 0, 1, 0, 1, 0, 1] ++ rest) table rest
        notices)
      ∧ table.encode indices = .ok [0, 1, 0, 0, 0, 4, 0, 1, 0, 1, 0, 1] := by
  have hreachable : (Pool.ofOne (.utf8 "I")).Reachable := Pool.reachable_ofOne rfl
  have husable : [VariableRow.mk 0 4 9 1 2, ⟨0, 4, 1, 1, 1⟩].filter
      (·.Usable (Pool.ofOne (.utf8 "I"))) = [⟨0, 4, 1, 1, 1⟩] := by decide +kernel
  have hrows := @reads_usable_rows (Pool.ofOne (.utf8 "I")) _
    [VariableRow.mk 0 4 9 1 2, ⟨0, 4, 1, 1, 1⟩] hreachable rfl 2 rfl
  obtain ⟨table, notices, hreads, -, -, -, -, hencode⟩ := hrows
  rw [husable] at hencode
  exact ⟨hreachable, _, table, notices, rfl, hreads, hencode⟩

/-- A text that is kept as units is no descriptor, even if its units are those of one. -/
theorem paired_units_dropped : (Pool.ofOne (.utf16 [0x49])).Reachable
    ∧ (∃ indices, (Pool.ofOne (.utf16 [0x49])).resolve = .ok indices)
    ∧ (Pool.ofOne (.utf16 [0x49])).constantAt 1 = .ok (.utf16 [0x49])
    ∧ (Constant.utf16 [0x49]).tag = .utf8 ∧ Text.Utf16.toString? [0x49] = some "I"
    ∧ FieldType.parse "I" = .ok (.base .int)
    ∧ ∀ rest, (LocalVariableTable.read (Pool.ofOne (.utf16 [0x49]))).Reads
      ([0, 1, 0, 0, 0, 4, 0, 1, 0, 1, 0, 1] ++ rest) ⟨[]⟩ rest
      [.droppedRow 1 (.unpairedSurrogates ⟨⟨0⟩, 0⟩)] := by
  refine ⟨Pool.reachable_ofOne rfl, ⟨_, rfl⟩, rfl, rfl, by decide +kernel, by decide +kernel,
    fun rest => ?_⟩
  exact @reads_rows (Pool.ofOne (.utf16 [0x49])) [⟨0, 4, 1, 1, 1⟩] 1 rfl rest

end LocalVariableTable

end ClassFormat
